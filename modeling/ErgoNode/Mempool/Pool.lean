import ErgoNode.Chain.Types
import ErgoNode.Lib.Overflow
import ErgoNode.Lib.SortedSet
import Mathlib.Algebra.Group.Nat.Defs
import Mathlib.Data.List.AList
import Mathlib.Data.List.Lex
import Mathlib.Data.Prod.Lex

/-!
# The mempool

Transactions by id, their weights, the order by weight, and two indexes from boxes to the
transactions that spend or create them. A transaction that enters or leaves passes its weight on to
the pooled transactions whose outputs it spends, to theirs, and so on, up to a bound on the depth
and the time of this scan. Weights are 64-bit numbers that wrap around, as in a release build.
-/

namespace ErgoNode
open Lib

inductive MempoolError where
  | alreadyExists (txId : String)
  | doubleSpend (boxId : String)
  | tooLarge (size max : Nat)
  | feeTooLow (fee min : Nat)
  | notFound (txId : String)
  deriving DecidableEq

def MempoolError.message : MempoolError → String
  | alreadyExists txId => s!"Transaction already in mempool: {txId}"
  | doubleSpend boxId => s!"Double spend detected: input {boxId} already spent"
  | tooLarge size max => s!"Transaction too large: {size} bytes, max {max} bytes"
  | feeTooLow fee min => s!"Fee too low: {fee} nanoERG, minimum {min} nanoERG"
  | notFound txId => s!"Transaction not found: {txId}"

/-! ### Ordering -/

structure WeightedTxId where
  txId : Bytes
  weight : Int64
  feePerFactor : Int64
  size : Nat
  created : Nat
  deriving DecidableEq

def feePerFactor (fee size : Nat) : Overflowing Int64 :=
  if size = 0 then return 0
  else do
    let product ← .times (Int64.ofNat fee) 1024
    return product / Int64.ofNat size

namespace WeightedTxId

def new (txId : Bytes) (fee size created : Nat) : WeightedTxId :=
  let feePerFactor := if size = 0 then 0 else Int64.ofNat fee * 1024 / Int64.ofNat size
  ⟨txId, feePerFactor, feePerFactor, size, created⟩

def addWeight (wtx : WeightedTxId) (delta : Int64) : WeightedTxId :=
  { wtx with weight := wtx.weight + delta }

def key (wtx : WeightedTxId) : Int ×ₗ List Nat := toLex (-wtx.weight.toInt, wtx.txId.map UInt8.toNat)

theorem txId_eq_of_key_eq {a b : WeightedTxId} (same : a.key = b.key) : a.txId = b.txId := by
  have ids := congrArg Prod.snd (toLex.injective same)
  exact List.map_injective_iff.mpr (fun _ _ => UInt8.toNat_inj.mp) ids

end WeightedTxId

/-! ### The pool -/

structure PooledTransaction where
  id : Bytes
  bytes : Bytes
  fee : Nat
  inputs : List Bytes
  outputs : List Bytes
  arrivalTime : Nat
  estimatedCost : Option Nat
  deriving DecidableEq

/-- The minimum fee per byte is a floating-point number: `belowMinFee` compares a fee over a size with
it, `minFee` is the fee that a size needs, for the error. -/
structure MempoolConfig where
  maxSize : Nat
  maxTransactions : Nat
  txExpirySecs : Nat
  belowMinFee : Nat → Nat → Bool
  minFee : Nat → Nat

def MempoolConfig.default : MempoolConfig := ⟨100 * 1024 * 1024, 10000, 3600, fun _ _ => false, fun _ => 0⟩

abbrev DashMap (V : Type) := AList fun _ : Bytes => V

structure Mempool where
  config : MempoolConfig
  transactions : DashMap PooledTransaction
  registry : DashMap WeightedTxId
  weightOrder : SortedSet WeightedTxId.key
  outputToTx : DashMap Bytes
  inputToTx : DashMap Bytes
  totalSize : Nat

/-- What the source leaves open, by the number of scans so far: the order in which a hash set is
walked, and whether a scan for parents begins within the time limit. -/
structure Schedule where
  order : Nat → List Bytes → List Bytes
  perm : ∀ scan ids, (order scan ids).Perm ids
  inTime : Nat → Bool

/-- The pool while an operation runs. `cutShort` records that a scan for parents met a limit. -/
structure Session where
  pool : Mempool
  scans : Nat
  cutShort : Bool

namespace Mempool

def new (config : MempoolConfig) : Mempool := ⟨config, ∅, ∅, .empty, ∅, ∅, 0⟩

variable (pool : Mempool)

def pooled : List PooledTransaction := pool.transactions.entries.map Sigma.snd

def getSpendingTx (inputId : Bytes) : Option Bytes := pool.inputToTx.lookup inputId

def getWeight (txId : Bytes) : Option Int64 := (pool.registry.lookup txId).map WeightedTxId.weight

def getByWeight (limit : Nat) : List PooledTransaction :=
  (pool.weightOrder.items.take limit).filterMap fun wtx => pool.transactions.lookup wtx.txId

/-! ### Family weights -/

def maxParentScanDepth : Nat := 500

def parentTxIds (tx : PooledTransaction) : List Bytes := (tx.inputs.filterMap pool.outputToTx.lookup).dedup

def reweigh (parentId : Bytes) (oldWtx : WeightedTxId) (weightDelta : Int64) : Mempool :=
  let newWtx := oldWtx.addWeight weightDelta
  { pool with
    registry := pool.registry.insert parentId newWtx
    weightOrder := (pool.weightOrder.erase oldWtx).insert newWtx }

def updateParent (scan : PooledTransaction → Session → Session) (tx : PooledTransaction)
    (weightDelta : Int64) (s : Session) (parentId : Bytes) : Session :=
  if parentId = tx.id then s
  else match s.pool.registry.lookup parentId, s.pool.transactions.lookup parentId with
    | some oldWtx, some parentTx => scan parentTx { s with pool := s.pool.reweigh parentId oldWtx weightDelta }
    | _, _ => s

/-- The first argument is how many levels are left. -/
def updateFamilyRecursive (schedule : Schedule) (weightDelta : Int64) :
    Nat → PooledTransaction → Session → Session
  | 0, _, s => { s with cutShort := true }
  | levels + 1, tx, s =>
      if schedule.inTime s.scans then
        (schedule.order s.scans (s.pool.parentTxIds tx)).foldl
          (updateParent (updateFamilyRecursive schedule weightDelta levels) tx weightDelta)
          { s with scans := s.scans + 1 }
      else { s with cutShort := true }

def updateFamily (schedule : Schedule) (tx : PooledTransaction) (weightDelta : Int64) : Session → Session :=
  updateFamilyRecursive schedule weightDelta (maxParentScanDepth + 1) tx

/-! ### Removal -/

def eraseAll (map : DashMap Bytes) (boxIds : List Bytes) : DashMap Bytes :=
  boxIds.foldl (fun map boxId => map.erase boxId) map

def insertAll (map : DashMap Bytes) (boxIds : List Bytes) (txId : Bytes) : DashMap Bytes :=
  boxIds.foldl (fun map boxId => map.insert boxId txId) map

theorem lookup_eraseAll (map : DashMap Bytes) (boxIds : List Bytes) (boxId : Bytes) :
    (eraseAll map boxIds).lookup boxId = if boxId ∈ boxIds then none else map.lookup boxId := by
  induction boxIds generalizing map with
  | nil => simp [eraseAll]
  | cons first rest ih =>
      have unfolded : eraseAll map (first :: rest) = eraseAll (map.erase first) rest := rfl
      rw [unfolded, ih]
      by_cases same : boxId = first
      · subst same
        simp
      · simp [same, AList.lookup_erase_ne]

theorem lookup_insertAll (map : DashMap Bytes) (boxIds : List Bytes) (txId boxId : Bytes) :
    (insertAll map boxIds txId).lookup boxId = if boxId ∈ boxIds then some txId else map.lookup boxId := by
  induction boxIds generalizing map with
  | nil => simp [insertAll]
  | cons first rest ih =>
      have unfolded : insertAll map (first :: rest) txId = insertAll (map.insert first txId) rest txId := rfl
      rw [unfolded, ih]
      by_cases same : boxId = first
      · subst same
        simp
      · simp [same, AList.lookup_insert_ne]

def detach (txId : Bytes) (tx : PooledTransaction) (wtx : Option WeightedTxId) : Mempool :=
  { pool with
    transactions := pool.transactions.erase txId
    registry := pool.registry.erase txId
    weightOrder := match wtx with
      | some wtx => pool.weightOrder.erase wtx
      | none => pool.weightOrder
    inputToTx := eraseAll pool.inputToTx tx.inputs
    outputToTx := eraseAll pool.outputToTx tx.outputs
    totalSize := pool.totalSize - tx.bytes.length }

def remove (schedule : Schedule) (txId : Bytes) (s : Session) :
    Except MempoolError PooledTransaction × Session :=
  match s.pool.transactions.lookup txId with
  | none => (.error (.notFound (hexEncode txId)), s)
  | some tx =>
      let wtx := s.pool.registry.lookup txId
      let s := { s with pool := s.pool.detach txId tx wtx }
      (.ok tx, match wtx with
        | some wtx => updateFamily schedule tx (-wtx.weight) s
        | none => s)

def removeAll (schedule : Schedule) : List Bytes → Session → Nat × Session
  | [], s => (0, s)
  | txId :: rest, s =>
      let (result, s) := remove schedule txId s
      let (removed, s) := removeAll schedule rest s
      (if result.toBool then removed + 1 else removed, s)

/-! ### Admission -/

def evictLowestWeight (schedule : Schedule) (s : Session) : Except MempoolError Unit × Session :=
  match s.pool.weightOrder.last? with
  | some wtx =>
      let (result, s) := remove schedule wtx.txId s
      (result.map fun _ => (), s)
  | none => (.ok (), s)

/-- The first argument bounds the rounds: each of them takes a transaction out. -/
def evictWhile (schedule : Schedule) (exceeds : Mempool → Bool) : Nat → Session → Session
  | 0, s => s
  | rounds + 1, s =>
      if exceeds s.pool then
        match evictLowestWeight schedule s with
        | (.ok _, s) => evictWhile schedule exceeds rounds s
        | (.error _, s) => s
      else s

def tooMany : Bool := pool.transactions.entries.length > pool.config.maxTransactions

def tooLarge : Bool := pool.totalSize > pool.config.maxSize

def maybeEvict (schedule : Schedule) (s : Session) : Session :=
  let s := evictWhile schedule tooMany s.pool.transactions.entries.length s
  evictWhile schedule tooLarge s.pool.transactions.entries.length s

def checkDoubleSpend (inputs : List Bytes) : Except MempoolError Unit :=
  inputs.forM fun input =>
    if input ∈ pool.inputToTx then .error (.doubleSpend (hexEncode input)) else .ok ()

def check (tx : PooledTransaction) : Except MempoolError Unit :=
  let txSize := tx.bytes.length
  if tx.id ∈ pool.transactions then .error (.alreadyExists (hexEncode tx.id))
  else if txSize > pool.config.maxSize / 10 then .error (.tooLarge txSize (pool.config.maxSize / 10))
  else if pool.config.belowMinFee tx.fee txSize then .error (.feeTooLow tx.fee (pool.config.minFee txSize))
  else pool.checkDoubleSpend tx.inputs

def weighted (tx : PooledTransaction) : WeightedTxId :=
  .new tx.id tx.fee tx.bytes.length tx.arrivalTime

def attach (tx : PooledTransaction) : Mempool :=
  { pool with
    registry := pool.registry.insert tx.id (weighted tx)
    inputToTx := insertAll pool.inputToTx tx.inputs tx.id
    outputToTx := insertAll pool.outputToTx tx.outputs tx.id
    weightOrder := pool.weightOrder.insert (weighted tx)
    totalSize := pool.totalSize + tx.bytes.length
    transactions := pool.transactions.insert tx.id tx }

def add (schedule : Schedule) (tx : PooledTransaction) (s : Session) : Except MempoolError Unit × Session :=
  match s.pool.check tx with
  | .error e => (.error e, s)
  | .ok _ =>
      let s := { s with pool := s.pool.attach tx }
      (.ok (), maybeEvict schedule (updateFamily schedule tx (weighted tx).weight s))

/-! ### After a block -/

def removeConfirmed (schedule : Schedule) (txIds spentInputs : List Bytes) (s : Session) : Nat × Session :=
  let (removed, s) := removeAll schedule txIds s
  let toRemove := (spentInputs.filterMap s.pool.getSpendingTx).filter fun txId => txId ∉ txIds
  let (conflicting, s) := removeAll schedule toRemove s
  (removed + conflicting, s)

/-- A transaction whose arrival lies ahead of `now` counts as expired: the difference wraps around. -/
def expired (now : Nat) : List Bytes :=
  (pool.pooled.filter fun tx =>
    (2 ^ 64 + now - tx.arrivalTime) % 2 ^ 64 > pool.config.txExpirySecs * 1000 % 2 ^ 64).map PooledTransaction.id

def removeExpired (schedule : Schedule) (now : Nat) (s : Session) : Session :=
  (removeAll schedule (schedule.order s.scans (s.pool.expired now)) { s with scans := s.scans + 1 }).2

def clear : Mempool := new pool.config

/-! ### Steps -/

inductive Action where
  | add (tx : PooledTransaction)
  | remove (txId : Bytes)
  | removeConfirmed (txIds spentInputs : List Bytes)
  | removeExpired (now : Nat)
  | clear

def Action.added? : Action → Option PooledTransaction
  | .add tx => some tx
  | _ => none

def perform (schedule : Schedule) : Action → Session → Session
  | .add tx, s => (add schedule tx s).2
  | .remove txId, s => (remove schedule txId s).2
  | .removeConfirmed txIds spentInputs, s => (removeConfirmed schedule txIds spentInputs s).2
  | .removeExpired now, s => removeExpired schedule now s
  | .clear, s => { s with pool := s.pool.clear }

def session : Session := ⟨pool, 0, false⟩

def step (a : Schedule × Action) : Option Mempool := some (perform a.1 a.2 pool.session).pool

end Mempool
end ErgoNode
