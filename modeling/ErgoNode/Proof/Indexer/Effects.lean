import ErgoNode.Storage.Indexer

/-!
# What the indexer's calls do

A call that finds all it needs in the buffers returns and changes the buffers only.
-/

namespace ErgoNode.Proof.Indexer
open Lib ExtraIndexer

section Locks
variable {A : Type} {lock : BufferLock} {mode : LockMode} {body : IndexerOp A} {indexer after : ExtraIndexer} {a : A}

def withGuard (lock : BufferLock) (mode : LockMode) (indexer : ExtraIndexer) : ExtraIndexer :=
  { indexer with held := (lock, mode) :: indexer.held }

theorem exec_withLock (free : indexer.held.any (blocks lock mode) = false)
    (done : body.exec (withGuard lock mode indexer) = (.ok a, after)) :
    (withLock lock mode body).exec indexer = (.ok a, { after with held := indexer.held }) := by
  change (if indexer.held.any (blocks lock mode) = true then _ else _) = _
  rw [if_neg (by simp [free])]
  change body.exec { indexer with held := (lock, mode) :: indexer.held } = _ at done
  rw [done]

theorem exec_withLock_modify (free : indexer.held.any (blocks lock mode) = false) (f : ExtraIndexer → ExtraIndexer) :
    (withLock lock mode (modify f)).exec indexer =
      (.ok ⟨⟩, { f (withGuard lock mode indexer) with held := indexer.held }) :=
  exec_withLock free (Op.exec_modify f _)

theorem exec_withLock_held (taken : indexer.held.any (blocks lock mode) = true) :
    (withLock lock mode body).exec indexer = (.error (.deadlock lock), indexer) := by
  change (if indexer.held.any (blocks lock mode) = true then _ else _) = _
  rw [if_pos taken]

theorem exec_withLock_deadlock {wanted : BufferLock} (free : indexer.held.any (blocks lock mode) = false)
    (stuck : body.exec (withGuard lock mode indexer) = (.error (.deadlock wanted), after)) :
    (withLock lock mode body).exec indexer = (.error (.deadlock wanted), after) := by
  change (if indexer.held.any (blocks lock mode) = true then _ else _) = _
  rw [if_neg (by simp [free])]
  change body.exec { indexer with held := (lock, mode) :: indexer.held } = _ at stuck
  rw [stuck]

theorem exec_peek {buffer : ExtraIndexer → Table Digest32 A} {key : Digest32}
    (keeps : ∀ held, buffer { indexer with held } = buffer indexer)
    (free : indexer.held.any (blocks lock .read) = false) :
    (withLock lock .read (do return (buffer (← get)).lookup key)).exec indexer =
      (.ok ((buffer indexer).lookup key), indexer) := by
  have inside : (do return (buffer (← get)).lookup key : IndexerOp (Option A)).exec (withGuard lock .read indexer) =
      (.ok ((buffer indexer).lookup key), withGuard lock .read indexer) := by
    change (Except.ok _, _) = _
    rw [withGuard, keeps]
  have locked := exec_withLock free inside
  exact locked

theorem exec_lookup_buffered {buffer : ExtraIndexer → Table Digest32 A} {read : RecordRead A} {key : Digest32}
    (keeps : ∀ held, buffer { indexer with held } = buffer indexer)
    (free : indexer.held.any (blocks lock .read) = false) (there : (buffer indexer).lookup key = some a) :
    (lookup lock buffer read key).exec indexer = (.ok (some a), indexer) := by
  have peeked := @exec_peek A lock indexer buffer key keeps free
  rw [there] at peeked
  unfold ExtraIndexer.lookup
  rw [Op.exec_bind_of_ok peeked]
  rfl

theorem exec_lookup_stored {buffer : ExtraIndexer → Table Digest32 A} {read : RecordRead A} {key : Digest32}
    (keeps : ∀ held, buffer { indexer with held } = buffer indexer)
    (free : indexer.held.any (blocks lock .read) = false) (missing : (buffer indexer).lookup key = none) :
    (lookup lock buffer read key).exec indexer = (stored read key).exec indexer := by
  have peeked := @exec_peek A lock indexer buffer key keeps free
  rw [missing] at peeked
  unfold ExtraIndexer.lookup
  rw [Op.exec_bind_of_ok peeked]

theorem exec_stored_none {read : RecordRead A} {key : Digest32} (missing : indexer.storage (.extraIndex key) = none) :
    (stored read key).exec indexer = (.ok none, indexer) := by
  unfold stored
  rw [Op.exec_bind_of_ok (Op.exec_get indexer), missing]
  rfl

theorem exec_stored_some {read : RecordRead A} {key : Digest32} {data : Bytes} {rest : Cursor}
    (there : indexer.storage (.extraIndex key) = some data) (reads : (read.exec ⟨0, data⟩).result = .ok (a, rest)) :
    (stored read key).exec indexer = (.ok (some a), indexer) := by
  unfold stored
  rw [Op.exec_bind_of_ok (Op.exec_get indexer), there]
  dsimp only
  rw [reads]
  rfl

end Locks

/-! ### Outputs -/

structure Output where
  boxId : Digest32
  height : UInt32
  boxBytes : Bytes
  value : UInt64
  ergoTreeBytes : Bytes
  tokens : List (Digest32 × UInt64)

namespace Output
variable (sr : SigmaRust)

def tree (output : Output) : Digest32 := hashErgoTree sr output.ergoTreeBytes

def ieb (output : Output) (globalIndex : UInt64) : IndexedErgoBox :=
  .new output.boxId output.height globalIndex output.boxBytes output.value (output.tree sr) output.tokens

end Output

section Calls
variable {sr : SigmaRust} {indexer : ExtraIndexer}

def addressAt (addresses : Table Digest32 IndexedErgoAddress) (tree : Digest32) : IndexedErgoAddress :=
  (addresses.lookup tree).getD (.new tree)

theorem getD_map_lookup {B : Type} (field : IndexedErgoAddress → B) (addresses : Table Digest32 IndexedErgoAddress)
    (tree : Digest32) : ((addresses.lookup tree).map field).getD (field (.new tree)) = field (addressAt addresses tree) := by
  unfold addressAt
  cases addresses.lookup tree <;> rfl

theorem addressAt_insert (addresses : Table Digest32 IndexedErgoAddress) (tree other : Digest32)
    (addr : IndexedErgoAddress) :
    addressAt (addresses.insert tree addr) other = if other = tree then addr else addressAt addresses other := by
  unfold addressAt
  by_cases same : other = tree
  · subst same
    rw [if_pos rfl, AList.lookup_insert]
    rfl
  · rw [if_neg same, AList.lookup_insert_ne same]

def indexed (sr : SigmaRust) (indexer : ExtraIndexer) (output : Output) : ExtraIndexer :=
  let globalIndex := indexer.state.globalBoxIndex
  let addr := (addressAt indexer.addresses (output.tree sr)).addBox globalIndex output.value output.tokens
  { indexer with
    state := { indexer.state with globalBoxIndex := globalIndex + 1 }
    boxes := indexer.boxes.insert output.boxId (output.ieb sr globalIndex)
    addresses := indexer.addresses.insert (output.tree sr) addr
    tokens := output.tokens.foldl (addTokenBox sr globalIndex) indexer.tokens }

theorem addressAt_indexed (output : Output) (tree : Digest32) :
    addressAt (indexed sr indexer output).addresses tree = if output.tree sr = tree then
      (addressAt indexer.addresses tree).addBox indexer.state.globalBoxIndex output.value output.tokens
    else addressAt indexer.addresses tree := by
  rw [indexed, addressAt_insert]
  by_cases same : output.tree sr = tree
  · rw [if_pos same, if_pos same.symm, same]
  · rw [if_neg same, if_neg (Ne.symm same)]

theorem exec_indexOutput (idle : indexer.held = []) (output : Output) :
    (indexOutput sr output.boxId output.height output.boxBytes output.value output.ergoTreeBytes output.tokens).exec
      indexer = (.ok indexer.state.globalBoxIndex, indexed sr indexer output) := by
  have inside : ∀ {i : ExtraIndexer} {lock : BufferLock}, i.held = [(.state, .write)] → lock ≠ .state →
      i.held.any (blocks lock .write) = false := by
    intro i lock held other
    rw [held]
    simp [blocks, Ne.symm other]
  have same : indexed sr indexer output = { { indexed sr indexer output with held := [(.state, .write)] } with
      held := indexer.held } := rfl
  rw [indexOutput, same]
  apply exec_withLock (by simp [idle])
  rw [Op.exec_bind_of_ok (Op.exec_get _)]
  dsimp only
  rw [Op.exec_bind_of_ok (exec_withLock_modify (inside (by simp [withGuard, idle]) (by simp)) _),
    Op.exec_bind_of_ok (exec_withLock_modify (inside (by simp [withGuard, idle]) (by simp)) _),
    Op.exec_bind_of_ok (exec_withLock_modify (inside (by simp [withGuard, idle]) (by simp)) _),
    Op.exec_bind_of_ok (Op.exec_modify _ _)]
  simp [withGuard, indexed, idle, addressAt, Output.ieb, Output.tree]

theorem exec_spendAtAddress {ieb : IndexedErgoBox} {addr : IndexedErgoAddress}
    (buffered : indexer.addresses.lookup ieb.ergoTreeHash = some addr) :
    (spendAtAddress ieb).exec indexer = (.ok (), { indexer with
      addresses := indexer.addresses.insert ieb.ergoTreeHash
        (addr.spendBox ieb.globalIndex ieb.value ieb.tokens) }) := by
  unfold spendAtAddress
  rw [Op.exec_bind_of_ok (Op.exec_get indexer), buffered]
  rfl

def spendTokenBox (sr : SigmaRust) (globalIndex : UInt64) (tokens : Table Digest32 IndexedToken)
    (token : Digest32 × UInt64) : Table Digest32 IndexedToken :=
  match tokens.lookup (tokenUniqueId sr token.1) with
  | some record => tokens.insert (tokenUniqueId sr token.1) (record.spendBox globalIndex)
  | none => tokens

theorem exec_spendAtToken {token : Digest32 × UInt64} {record : IndexedToken}
    (buffered : indexer.tokens.lookup (tokenUniqueId sr token.1) = some record) (globalIndex : UInt64) :
    (spendAtToken sr globalIndex token.1).exec indexer =
      (.ok (), { indexer with tokens := spendTokenBox sr globalIndex indexer.tokens token }) := by
  unfold spendAtToken spendTokenBox
  rw [Op.exec_bind_of_ok (Op.exec_get indexer), buffered]
  rfl

theorem lookup_spendTokenBox (tokens : Table Digest32 IndexedToken) (globalIndex : UInt64) (token : Digest32 × UInt64)
    (key : Digest32) : (spendTokenBox sr globalIndex tokens token).lookup key =
      if tokenUniqueId sr token.1 = key then (tokens.lookup key).map (IndexedToken.spendBox · globalIndex)
      else tokens.lookup key := by
  unfold spendTokenBox
  by_cases same : tokenUniqueId sr token.1 = key
  · subst same
    cases there : tokens.lookup (tokenUniqueId sr token.1) <;> simp [there]
  · rw [if_neg same]
    split
    · rw [AList.lookup_insert_ne (Ne.symm same)]
    · rfl

theorem isSome_lookup_spendTokenBox {tokens : Table Digest32 IndexedToken} {globalIndex : UInt64}
    {token : Digest32 × UInt64} {key : Digest32} :
    ((spendTokenBox sr globalIndex tokens token).lookup key).isSome = true ↔ (tokens.lookup key).isSome = true := by
  rw [lookup_spendTokenBox]
  split <;> simp

theorem lookup_spendTokenBoxes (list : List (Digest32 × UInt64)) (tokens : Table Digest32 IndexedToken)
    (globalIndex : UInt64) (key : Digest32) :
    (list.foldl (spendTokenBox sr globalIndex) tokens).lookup key =
      (tokens.lookup key).map
        (IndexedToken.spendBox · globalIndex)^[(list.map fun token => tokenUniqueId sr token.1).count key] := by
  induction list generalizing tokens with
  | nil => simp
  | cons token rest ih =>
      rw [List.foldl_cons, ih, lookup_spendTokenBox, List.map_cons, List.count_cons]
      by_cases same : tokenUniqueId sr token.1 = key
      · simp [same, Function.comp_def]
      · simp [same]

theorem exec_spendAtTokens {tokens : List (Digest32 × UInt64)} {globalIndex : UInt64}
    (buffered : ∀ token ∈ tokens, (indexer.tokens.lookup (tokenUniqueId sr token.1)).isSome = true) :
    (Op.forEach (fun token : Digest32 × UInt64 => spendAtToken sr globalIndex token.1) tokens).exec indexer =
      (.ok (), { indexer with tokens := tokens.foldl (spendTokenBox sr globalIndex) indexer.tokens }) := by
  induction tokens generalizing indexer with
  | nil => rfl
  | cons token rest ih =>
      obtain ⟨head, later⟩ := List.forall_mem_cons.mp buffered
      obtain ⟨record, there⟩ := Option.isSome_iff_exists.mp head
      rw [Op.exec_forEach_cons]
      simp only [exec_spendAtToken there globalIndex]
      rw [ih]
      · rfl
      · exact fun other member => isSome_lookup_spendTokenBox.mpr (later other member)

theorem exec_spendAtTokens_of_unbuffered {tokens : List (Digest32 × UInt64)} {globalIndex : UInt64}
    (held : (.tokens, .write) ∈ indexer.held)
    (unbuffered : ∃ token ∈ tokens, indexer.tokens.lookup (tokenUniqueId sr token.1) = none) :
    ∃ waiting, (Op.forEach (fun token : Digest32 × UInt64 => spendAtToken sr globalIndex token.1) tokens).exec indexer =
      (.error (.deadlock .tokens), waiting) := by
  induction tokens generalizing indexer with
  | nil => simp at unbuffered
  | cons token rest ih =>
      rw [Op.exec_forEach_cons]
      cases there : indexer.tokens.lookup (tokenUniqueId sr token.1) with
      | none =>
          have taken : indexer.held.any (blocks .tokens .read) = true := List.any_eq_true.mpr ⟨_, held, rfl⟩
          have stuck : (spendAtToken sr globalIndex token.1).exec indexer = (.error (.deadlock .tokens), indexer) := by
            unfold spendAtToken
            rw [Op.exec_bind_of_ok (Op.exec_get indexer), there]
            apply Op.exec_bind_of_error
            exact Op.exec_bind_of_error (exec_withLock_held taken)
          rw [stuck]
          exact ⟨indexer, rfl⟩
      | some record =>
          simp only [exec_spendAtToken there globalIndex]
          apply @ih { indexer with tokens := spendTokenBox sr globalIndex indexer.tokens token } held
          obtain ⟨other, member, missing⟩ := unbuffered
          rcases List.mem_cons.mp member with rfl | later
          · rw [there] at missing
            cases missing
          · refine ⟨other, later, ?_⟩
            rw [← Option.not_isSome_iff_eq_none] at missing ⊢
            rwa [isSome_lookup_spendTokenBox]

def spent (sr : SigmaRust) (indexer : ExtraIndexer) (boxId : Digest32) (ieb : IndexedErgoBox)
    (spendingTxId : Digest32) (spendingHeight : UInt32) : ExtraIndexer :=
  let addr := (addressAt indexer.addresses ieb.ergoTreeHash).spendBox ieb.globalIndex ieb.value ieb.tokens
  { indexer with
    boxes := indexer.boxes.insert boxId (ieb.markSpent spendingTxId spendingHeight)
    addresses := indexer.addresses.insert ieb.ergoTreeHash addr
    tokens := ieb.tokens.foldl (spendTokenBox sr ieb.globalIndex) indexer.tokens }

theorem addressAt_spent {boxId spendingTxId : Digest32} {ieb : IndexedErgoBox} {spendingHeight : UInt32}
    (tree : Digest32) : addressAt (spent sr indexer boxId ieb spendingTxId spendingHeight).addresses tree =
      if ieb.ergoTreeHash = tree then
        (addressAt indexer.addresses tree).spendBox ieb.globalIndex ieb.value ieb.tokens
      else addressAt indexer.addresses tree := by
  rw [spent, addressAt_insert]
  by_cases same : ieb.ergoTreeHash = tree
  · rw [if_pos same, if_pos same.symm, same]
  · rw [if_neg same, if_neg (Ne.symm same)]

def spentAtAddress (indexer : ExtraIndexer) (boxId : Digest32) (ieb : IndexedErgoBox) (addr : IndexedErgoAddress)
    (spendingTxId : Digest32) (spendingHeight : UInt32) : ExtraIndexer :=
  { indexer with
    boxes := indexer.boxes.insert boxId (ieb.markSpent spendingTxId spendingHeight)
    addresses := indexer.addresses.insert ieb.ergoTreeHash (addr.spendBox ieb.globalIndex ieb.value ieb.tokens) }

theorem exec_spendBox_of_buffered (idle : indexer.held = []) {boxId : Digest32} {ieb : IndexedErgoBox}
    {addr : IndexedErgoAddress} (found : (getBox boxId).exec indexer = (.ok (some ieb), indexer))
    (there : indexer.addresses.lookup ieb.ergoTreeHash = some addr) (spendingTxId : Digest32)
    (spendingHeight : UInt32) : (spendBox sr boxId spendingTxId spendingHeight).exec indexer =
      (do
        withLock .tokens .write (Op.forEach (fun token => spendAtToken sr ieb.globalIndex token.1) ieb.tokens)
        return some ieb.globalIndex : IndexerOp (Option UInt64)).exec
          (spentAtAddress indexer boxId ieb addr spendingTxId spendingHeight) := by
  let marked : ExtraIndexer :=
    { indexer with boxes := indexer.boxes.insert boxId (ieb.markSpent spendingTxId spendingHeight) }
  unfold spendBox
  rw [Op.exec_bind_of_ok found]
  refine (Op.exec_bind_of_ok (t := marked) (exec_withLock_modify (by simp [idle]) _)).trans ?_
  exact Op.exec_bind_of_ok (exec_withLock (by simp [marked, idle])
    (@exec_spendAtAddress (withGuard .addresses .write marked) ieb addr there))

theorem exec_spendBox (idle : indexer.held = []) {boxId : Digest32} {ieb : IndexedErgoBox}
    (found : (getBox boxId).exec indexer = (.ok (some ieb), indexer))
    (address : (indexer.addresses.lookup ieb.ergoTreeHash).isSome = true)
    (tokens : ∀ token ∈ ieb.tokens, (indexer.tokens.lookup (tokenUniqueId sr token.1)).isSome = true)
    (spendingTxId : Digest32) (spendingHeight : UInt32) :
    (spendBox sr boxId spendingTxId spendingHeight).exec indexer =
      (.ok (some ieb.globalIndex), spent sr indexer boxId ieb spendingTxId spendingHeight) := by
  obtain ⟨addr, there⟩ := Option.isSome_iff_exists.mp address
  rw [exec_spendBox_of_buffered idle found there]
  refine (Op.exec_bind_of_ok (exec_withLock (by simp [spentAtAddress, idle])
    (@exec_spendAtTokens sr (withGuard .tokens .write (spentAtAddress indexer boxId ieb addr spendingTxId
      spendingHeight)) ieb.tokens ieb.globalIndex tokens))).trans ?_
  simp [spent, withGuard, spentAtAddress, addressAt, there]

theorem exec_spendBox_of_none {boxId : Digest32} (missing : (getBox boxId).exec indexer = (.ok none, indexer))
    (spendingTxId : Digest32) (spendingHeight : UInt32) :
    (spendBox sr boxId spendingTxId spendingHeight).exec indexer = (.ok none, indexer) := by
  unfold spendBox
  rw [Op.exec_bind_of_ok missing]
  rfl

/-- A box whose address is not buffered is never spent: the address is looked up by the thread that holds the
lock. -/
theorem exec_spendBox_of_unbuffered (idle : indexer.held = []) {boxId : Digest32} {ieb : IndexedErgoBox}
    (found : (getBox boxId).exec indexer = (.ok (some ieb), indexer))
    (unbuffered : indexer.addresses.lookup ieb.ergoTreeHash = none) (spendingTxId : Digest32)
    (spendingHeight : UInt32) : ∃ waiting, (spendBox sr boxId spendingTxId spendingHeight).exec indexer =
      (.error (.deadlock .addresses), waiting) := by
  let marked : ExtraIndexer :=
    { indexer with boxes := indexer.boxes.insert boxId (ieb.markSpent spendingTxId spendingHeight) }
  have stuck : (spendAtAddress ieb).exec (withGuard .addresses .write marked) =
      (.error (.deadlock .addresses), withGuard .addresses .write marked) := by
    have missing : (withGuard .addresses .write marked).addresses.lookup ieb.ergoTreeHash = none := unbuffered
    unfold spendAtAddress
    rw [Op.exec_bind_of_ok (Op.exec_get _), missing]
    apply Op.exec_bind_of_error
    exact Op.exec_bind_of_error (exec_withLock_held (by simp [withGuard, blocks]))
  unfold spendBox
  rw [Op.exec_bind_of_ok found]
  refine ⟨withGuard .addresses .write marked, (Op.exec_bind_of_ok (t := marked)
    (exec_withLock_modify (by simp [idle]) _)).trans ?_⟩
  exact Op.exec_bind_of_error (exec_withLock_deadlock (by simp [marked, idle]) stuck)

theorem exec_spendBox_of_unbuffered_token (idle : indexer.held = []) {boxId : Digest32} {ieb : IndexedErgoBox}
    (found : (getBox boxId).exec indexer = (.ok (some ieb), indexer))
    (address : (indexer.addresses.lookup ieb.ergoTreeHash).isSome = true)
    (unbuffered : ∃ token ∈ ieb.tokens, indexer.tokens.lookup (tokenUniqueId sr token.1) = none)
    (spendingTxId : Digest32) (spendingHeight : UInt32) :
    ∃ waiting, (spendBox sr boxId spendingTxId spendingHeight).exec indexer = (.error (.deadlock .tokens), waiting) := by
  obtain ⟨addr, there⟩ := Option.isSome_iff_exists.mp address
  obtain ⟨waiting, stuck⟩ := @exec_spendAtTokens_of_unbuffered sr (withGuard .tokens .write (spentAtAddress indexer boxId
    ieb addr spendingTxId spendingHeight)) ieb.tokens ieb.globalIndex List.mem_cons_self unbuffered
  rw [exec_spendBox_of_buffered idle found there]
  exact ⟨waiting, Op.exec_bind_of_error (exec_withLock_deadlock (by simp [spentAtAddress, idle]) stuck)⟩

end Calls
end ErgoNode.Proof.Indexer
