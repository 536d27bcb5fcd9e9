import ErgoNode.Chain.Types
import ErgoNode.Lib.Effect
import ErgoNode.Lib.Store

/-!
# The node's database

Column families with the keys and values the state crate keeps in them. Headers and block sections are
kept as their bytes; the fixed layouts of the other values (big-endian integers, length prefixes) are
read as structures, around the box bytes as they are.
-/

namespace ErgoNode
open Lib

inductive IndexKind where
  | ergoTree | token
  deriving DecidableEq

inductive ColumnFamily where
  | headers | blockTransactions | extensions | adProofs | utxo | headerChain | undoData
  | index (kind : IndexKind) | cumulativeDifficulty | metadata
  deriving DecidableEq

abbrev ColumnFamily.ergoTreeIndex : ColumnFamily := .index .ergoTree
abbrev ColumnFamily.tokenIndex : ColumnFamily := .index .token

inductive MetadataKey where
  | bestHeaderId | bestHeight | bestCumulativeDifficulty | bestFullBlockId | bestFullBlockHeight
  | minimalFullBlockHeight | isHeadersChainSynced | utxoHeight | stateRoot
  deriving DecidableEq

structure StoredBox where
  creationHeight : Nat
  txId : TxId
  outputIndex : Nat
  boxBytes : Bytes
  deriving DecidableEq

structure StoredUndo where
  height : Nat
  spentBoxes : List StoredBox
  createdBoxIds : List BoxId
  deriving DecidableEq

namespace ColumnFamily

abbrev Key : ColumnFamily → Type
  | .headers | .blockTransactions | .extensions | .adProofs | .cumulativeDifficulty => BlockId
  | .utxo => BoxId
  | .headerChain | .undoData => Nat
  | .index _ => Digest32
  | .metadata => MetadataKey

instance : (cf : ColumnFamily) → DecidableEq cf.Key
  | .headers | .blockTransactions | .extensions | .adProofs | .cumulativeDifficulty | .utxo
  | .index _ => inferInstanceAs (DecidableEq Digest32)
  | .headerChain | .undoData => inferInstanceAs (DecidableEq Nat)
  | .metadata => inferInstanceAs (DecidableEq MetadataKey)

end ColumnFamily

abbrev MetadataKey.Value : MetadataKey → Type
  | .bestHeaderId | .bestFullBlockId => BlockId
  | .bestHeight | .bestCumulativeDifficulty | .bestFullBlockHeight | .minimalFullBlockHeight
  | .utxoHeight => Nat
  | .isHeadersChainSynced => Bool
  | .stateRoot => Bytes

abbrev Address := (cf : ColumnFamily) × cf.Key

abbrev Address.Value : Address → Type
  | ⟨.headers, _⟩ => Bytes
  | ⟨.blockTransactions, _⟩ => Bytes
  | ⟨.extensions, _⟩ => Bytes
  | ⟨.adProofs, _⟩ => Bytes
  | ⟨.utxo, _⟩ => StoredBox
  | ⟨.headerChain, _⟩ => BlockId
  | ⟨.undoData, _⟩ => StoredUndo
  | ⟨.index _, _⟩ => List BoxId
  | ⟨.cumulativeDifficulty, _⟩ => Nat
  | ⟨.metadata, key⟩ => key.Value

abbrev Columns := Store Address.Value
abbrev WriteBatch := List (BatchOperation Address.Value)

namespace WriteBatch

def put (batch : WriteBatch) (cf : ColumnFamily) (key : cf.Key) (value : Address.Value ⟨cf, key⟩) :
    WriteBatch :=
  batch ++ [⟨⟨cf, key⟩, .put value⟩]

def delete (batch : WriteBatch) (cf : ColumnFamily) (key : cf.Key) : WriteBatch :=
  batch ++ [⟨⟨cf, key⟩, .delete⟩]

variable (batch : WriteBatch) {cf : ColumnFamily} {key : cf.Key}

@[simp] theorem column_put (value : Address.Value ⟨cf, key⟩) :
    batchColumn cf (batch.put cf key value) = batchColumn cf batch ++ [⟨key, .put value⟩] := by
  rw [put, batchColumn_append, batchColumn_cons_same, batchColumn_nil]

@[simp] theorem column_put_of_ne {other : ColumnFamily} (value : Address.Value ⟨cf, key⟩)
    (h : cf ≠ other) : batchColumn other (batch.put cf key value) = batchColumn other batch := by
  rw [put, batchColumn_append, batchColumn_cons_of_ne h, batchColumn_nil, List.append_nil]

@[simp] theorem column_delete_of_ne {other : ColumnFamily} (h : cf ≠ other) :
    batchColumn other (batch.delete cf key) = batchColumn other batch := by
  rw [delete, batchColumn_append, batchColumn_cons_of_ne h, batchColumn_nil, List.append_nil]

end WriteBatch

inductive StorageError where
  | database
  deriving DecidableEq

inductive StateError where
  | storage (error : StorageError)
  | boxNotFound (id : String)
  | headerNotFound (id : String)
  | invalidTransition (message : String)
  | rollbackFailed (message : String)
  | stateRootMismatch (height : Nat) (expected computed : String)
  | serialization (message : String)
  | avlTree (message : String)
  deriving DecidableEq

abbrev StateResult := Except StateError

/-- `faults` scripts the coming batch writes: `true` is a write that fails and changes nothing.
Past its end every write succeeds. -/
structure Database where
  columns : Columns
  faults : List Bool

namespace Database

def empty : Database := ⟨fun _ => none, []⟩

protected def get (db : Database) (cf : ColumnFamily) (key : cf.Key) :
    Option (Address.Value ⟨cf, key⟩) :=
  db.columns ⟨cf, key⟩

def contains (db : Database) (cf : ColumnFamily) (key : cf.Key) : Bool := (db.get cf key).isSome

def writeBatch (batch : WriteBatch) : Op Database StateError Unit := do
  let db ← get
  match db.faults with
  | true :: rest =>
      set { db with faults := rest }
      throw (.storage .database)
  | false :: rest => set (Database.mk (db.columns.write batch) rest)
  | [] => set { db with columns := db.columns.write batch }

def writeFails (faults : List Bool) : Bool := faults.head? == some true

theorem exec_writeBatch (batch : WriteBatch) (db : Database) :
    (writeBatch batch).exec db =
      if writeFails db.faults then (.error (.storage .database), ⟨db.columns, db.faults.tail⟩)
      else (.ok (), ⟨db.columns.write batch, db.faults.tail⟩) := by
  rcases faults : db.faults with _ | ⟨fails, rest⟩
  · simp [writeBatch, Op.exec_bind, faults, writeFails]
  · cases fails <;> simp [writeBatch, Op.exec_bind, faults, writeFails]

variable {batch : WriteBatch} {db after : Database}

theorem exec_writeBatch_of_faults_nil (sound : db.faults = []) :
    (writeBatch batch).exec db = (.ok (), ⟨db.columns.write batch, []⟩) := by
  rw [exec_writeBatch, sound]
  rfl

theorem exec_writeBatch_of_fails (batch : WriteBatch) (fails : writeFails db.faults = true) :
    (writeBatch batch).exec db = (.error (.storage .database), { db with faults := db.faults.tail }) := by
  rw [exec_writeBatch, if_pos fails]

theorem writeBatch_eq_ok_iff :
    (writeBatch batch).exec db = (.ok (), after) ↔
      writeFails db.faults = false ∧ after = ⟨db.columns.write batch, db.faults.tail⟩ := by
  rw [exec_writeBatch]
  cases fails : writeFails db.faults with
  | true => simp
  | false => simp [eq_comm]

theorem columns_of_writeBatch_ok (h : (writeBatch batch).exec db = (.ok (), after)) :
    after.columns = db.columns.write batch := by
  rw [(writeBatch_eq_ok_iff.mp h).2]

theorem columns_of_writeBatch_error {error : StateError}
    (h : (writeBatch batch).exec db = (.error error, after)) : after.columns = db.columns := by
  rw [exec_writeBatch] at h
  split at h
  · cases h
    rfl
  · cases h

end Database

structure OnDatabase (M : Type) where
  db : Database
  mem : M

def OnDatabase.writeBatch {M : Type} (batch : WriteBatch) : Op (OnDatabase M) StateError Unit :=
  Op.zoom (·.db) (fun db st => { st with db }) (Database.writeBatch batch)

theorem OnDatabase.exec_writeBatch {M : Type} {db : Database} (works : Database.writeFails db.faults = false)
    (mem : M) (batch : WriteBatch) :
    (OnDatabase.writeBatch batch).exec ⟨db, mem⟩ = (.ok (), ⟨⟨db.columns.write batch, db.faults.tail⟩, mem⟩) := by
  rw [OnDatabase.writeBatch, Op.exec_zoom, Database.writeBatch_eq_ok_iff.mpr ⟨works, rfl⟩]

theorem OnDatabase.exec_writeBatch_of_fails {M : Type} {db : Database} (fails : Database.writeFails db.faults = true)
    (mem : M) (batch : WriteBatch) :
    (OnDatabase.writeBatch batch).exec ⟨db, mem⟩ =
      (.error (.storage .database), ⟨⟨db.columns, db.faults.tail⟩, mem⟩) := by
  rw [OnDatabase.writeBatch, Op.exec_zoom, Database.exec_writeBatch_of_fails batch fails]

theorem OnDatabase.ends_writeBatch_bind {M : Type} {batch : WriteBatch} {P : OnDatabase M → Prop} {α : Type}
    {rest : Unit → Op (OnDatabase M) StateError α} {view : OnDatabase M}
    (kept : ∀ faults, P ⟨⟨view.db.columns, faults⟩, view.mem⟩)
    (written : ∀ faults, Op.Ends P (rest ()) ⟨⟨view.db.columns.write batch, faults⟩, view.mem⟩) :
    Op.Ends P (OnDatabase.writeBatch batch >>= rest) view := by
  obtain ⟨db, mem⟩ := view
  cases fails : Database.writeFails db.faults with
  | true =>
      rw [Op.Ends, Op.exec_bind_of_error (OnDatabase.exec_writeBatch_of_fails fails mem batch)]
      exact kept _
  | false =>
      rw [Op.Ends, Op.exec_bind_of_ok (OnDatabase.exec_writeBatch fails mem batch)]
      exact written _

theorem OnDatabase.ends_writeBatch {M : Type} {batch : WriteBatch} {P : OnDatabase M → Prop} {view : OnDatabase M}
    (kept : ∀ faults, P ⟨⟨view.db.columns, faults⟩, view.mem⟩)
    (written : ∀ faults, P ⟨⟨view.db.columns.write batch, faults⟩, view.mem⟩) :
    Op.Ends P (OnDatabase.writeBatch batch) view := by
  have whole := @OnDatabase.ends_writeBatch_bind M batch P Unit (fun _ => pure ()) view kept written
  rwa [bind_pure_unit] at whole

theorem OnDatabase.keeps_writeBatch {M : Type} (batch : WriteBatch) :
    Op.Keeps (·.mem) (OnDatabase.writeBatch batch : Op (OnDatabase M) StateError Unit) :=
  fun _ => rfl

/-! ### Crashes between writes

What is stored when the process dies inside a call: some of the call's batches are written, the next
one is not, and nothing happens after that. -/

def Database.interrupted (db : Database) (writes : Nat) : Database :=
  ⟨db.columns, List.replicate writes false ++ [true]⟩

namespace OnDatabase
variable {M α : Type}

/-- What is stored when a call is cut off after `writes` of its batches: a call ends with the first
batch that is refused. -/
def crash (x : Op (OnDatabase M) StateError α) (writes : Nat) (view : OnDatabase M) : Columns :=
  (x.exec { view with db := view.db.interrupted writes }).2.db.columns

def CutOff (x : Op (OnDatabase M) StateError α) (writes : Nat) (view : OnDatabase M) : Prop :=
  (x.exec { view with db := view.db.interrupted writes }).2.db.faults = []

variable {view : OnDatabase M} {batch : WriteBatch}

theorem exec_writeBatch_interrupted_zero (db : Database) (mem : M) :
    (OnDatabase.writeBatch batch).exec ⟨db.interrupted 0, mem⟩ =
      (.error (.storage .database), ⟨⟨db.columns, []⟩, mem⟩) :=
  exec_writeBatch_of_fails rfl mem batch

theorem exec_writeBatch_interrupted_succ (db : Database) (mem : M) (writes : Nat) :
    (OnDatabase.writeBatch batch).exec ⟨db.interrupted (writes + 1), mem⟩ =
      (.ok (), ⟨Database.interrupted ⟨db.columns.write batch, []⟩ writes, mem⟩) :=
  exec_writeBatch rfl mem batch

end OnDatabase

end ErgoNode
