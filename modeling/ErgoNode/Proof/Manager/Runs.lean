import ErgoNode.Lib.Run
import ErgoNode.Proof.Manager.Calls
import Mathlib.Data.List.Chain

/-!
# Runs of manager calls

A run starts at an empty node and goes on while its calls return `Ok`. Beside the manager it keeps
the blocks whose changes are in the UTXO set, the last one first.
-/

namespace ErgoNode.Proof.Manager
open Lib StateManager Utxo
open ErgoNode.Proof.History (fullBlock fullBlock_withBestBlock keeps_appendHeaderInternal
  keeps_appendHeadersBatched)

inductive Call where
  | appendHeader (header : Header)
  | appendHeaderWithBytes (header : Header) (rawBytes : Bytes)
  | appendHeadersBatched (headers : List (Header × Bytes))
  | applyBlock (block : FullBlock) (stateChange : StateChange)
  | applyBlocksBatched (blocks : List (FullBlock × StateChange))
  | rollbackTo (height : Nat)

def Call.exec (sr : SigmaRust) : Call → Op StateManager StateError Unit
  | .appendHeader header => do
      let _ ← applyHeader sr header
  | .appendHeaderWithBytes header rawBytes => do
      let _ ← applyHeaderWithBytes sr header rawBytes
  | .appendHeadersBatched headers => do
      let _ ← applyHeadersBatched sr headers
  | .applyBlock block stateChange => do
      let _ ← StateManager.applyBlock sr block stateChange
  | .applyBlocksBatched blocks => do
      let _ ← StateManager.applyBlocksBatched sr blocks
  | .rollbackTo height => StateManager.rollbackTo sr height

def Call.reflect : Call → List FullBlock → List FullBlock
  | .applyBlock block _, applied => block :: applied
  | .applyBlocksBatched blocks, applied => (blocks.map Prod.fst).reverse ++ applied
  | .rollbackTo height, applied => applied.filter (·.height ≤ height)
  | _, applied => applied

structure Node where
  manager : StateManager
  applied : List FullBlock

def emptyNode (faults : List Bool) (mode : StateRootVerification) : Node :=
  ⟨⟨⟨Database.empty.columns, faults⟩, .new, .new, mode⟩, []⟩

def okStep (sr : SigmaRust) (node : Node) (call : Call) : Option Node :=
  match (call.exec sr).exec node.manager with
  | (.ok _, manager) => some ⟨manager, call.reflect node.applied⟩
  | (.error _, _) => none

section Step
variable {sr : SigmaRust} {node after : Node} {call : Call}

theorem okStep_eq_some (taken : okStep sr node call = some after) :
    (call.exec sr).exec node.manager = (.ok (), after.manager) ∧
      after.applied = call.reflect node.applied := by
  rw [okStep] at taken
  split at taken
  · next manager ran =>
      cases taken
      exact ⟨ran, rfl⟩
  · cases taken

def Contiguous (node : Node) : Prop :=
  node.applied.map FullBlock.height = (List.range' 1 node.manager.utxo.height).reverse

theorem contiguous_emptyNode (faults : List Bool) (mode : StateRootVerification) :
    Contiguous (emptyNode faults mode) := rfl

def NotRollback (call : Call) : Prop := ∀ height, call ≠ .rollbackTo height

/-- What a successful call does to the counters: a header call nothing, a block call goes up by its
blocks and takes the last one as the best full block, a rollback goes down. -/
inductive Moves (node after : Node) : Call → Prop
  | header {call : Call} (forward : NotRollback call) (reflected : ∀ applied, call.reflect applied = applied)
      (utxo : after.manager.utxo = node.manager.utxo)
      (full : fullBlock after.manager.history = fullBlock node.manager.history) : Moves node after call
  | block {call : Call} {first : FullBlock} {rest : List FullBlock} (forward : NotRollback call)
      (reflected : ∀ applied, call.reflect applied = (first :: rest).reverse ++ applied)
      (heights : (first :: rest).map FullBlock.height =
        List.range' (node.manager.utxo.height + 1) (rest.length + 1))
      (utxo : after.manager.utxo =
        { node.manager.utxo with height := node.manager.utxo.height + (rest.length + 1) })
      (full : fullBlock after.manager.history =
        if node.manager.utxo.height + (rest.length + 1) > node.manager.history.bestFullBlockHeight then
          (some (rest.getLastD first).id, node.manager.utxo.height + (rest.length + 1))
        else fullBlock node.manager.history) : Moves node after call
  | back {height : Nat} (low : height < node.manager.utxo.height)
      (utxo : after.manager.utxo = { node.manager.utxo with height })
      (full : fullBlock after.manager.history = fullBlock node.manager.history) :
      Moves node after (.rollbackTo height)

theorem last_height {base : Nat} {first : FullBlock} {rest : List FullBlock}
    (heights : (first :: rest).map FullBlock.height = List.range' (base + 1) (rest.length + 1)) :
    (rest.getLastD first).height = base + (rest.length + 1) := by
  have last := congrArg List.getLast? heights
  rw [List.getLast?_map, List.range'_1_concat, List.getLast?_concat, List.getLast?_cons] at last
  simp only [Option.map_some, Option.some.injEq] at last
  rw [List.getLastD_eq_getLast?, last]
  omega

theorem moves (taken : okStep sr node call = some after) : Moves node after call := by
  obtain ⟨ran, -⟩ := okStep_eq_some taken
  cases call with
  | appendHeader header =>
      obtain ⟨_, ran⟩ := Op.exec_discard_eq_ok.mp ran
      obtain ⟨utxo, full⟩ := onHistory_eq_ok (keeps_appendHeaderInternal _ _) ran
      exact .header (by simp [NotRollback]) (fun _ => rfl) utxo full
  | appendHeaderWithBytes header rawBytes =>
      obtain ⟨_, ran⟩ := Op.exec_discard_eq_ok.mp ran
      obtain ⟨utxo, full⟩ := onHistory_eq_ok (keeps_appendHeaderInternal _ _) ran
      exact .header (by simp [NotRollback]) (fun _ => rfl) utxo full
  | appendHeadersBatched headers =>
      obtain ⟨_, ran⟩ := Op.exec_discard_eq_ok.mp ran
      obtain ⟨utxo, full⟩ := onHistory_eq_ok (keeps_appendHeadersBatched _) ran
      exact .header (by simp [NotRollback]) (fun _ => rfl) utxo full
  | applyBlock block stateChange =>
      obtain ⟨_, ran⟩ := Op.exec_discard_eq_ok.mp ran
      obtain ⟨height, ⟨cumulative, history⟩, utxo⟩ := applyBlock_eq_ok ran
      refine @Moves.block _ _ _ block [] (by simp [NotRollback]) (fun _ => rfl) (by simp [height]) ?_ ?_
      · rw [utxo, height]
        rfl
      · rw [history, fullBlock_withBestBlock, height]
        rfl
  | applyBlocksBatched blocks =>
      obtain ⟨_, ran⟩ := Op.exec_discard_eq_ok.mp ran
      cases blocks with
      | nil =>
          simp only [StateManager.applyBlocksBatched, Op.exec_pure, Prod.mk.injEq] at ran
          obtain ⟨-, same⟩ := ran
          exact .header (by simp [NotRollback]) (fun _ => rfl) (by rw [← same]) (by rw [← same])
      | cons first rest =>
          obtain ⟨acc, -, applied⟩ := applyBlocksBatched_eq_ok ran
          have heights : (first.1 :: rest.map Prod.fst).map FullBlock.height =
              List.range' (node.manager.utxo.height + 1) ((rest.map Prod.fst).length + 1) := by
            simpa [List.map_map, Function.comp_def] using applied.heights
          have last : (rest.getLastD first).1 = (rest.map Prod.fst).getLastD first.1 := by
            rw [List.getLastD_eq_getLast?, List.getLastD_eq_getLast?, List.getLast?_map,
              Option.getD_map]
          have top := last_height heights
          refine .block (by simp [NotRollback]) (fun _ => rfl) heights ?_ ?_
          · rw [applied.utxo, last, top]
          · rw [applied.history, fullBlock_withBestBlock, last, top]
  | rollbackTo height =>
      obtain ⟨low, utxo, history⟩ := rollbackTo_eq_ok ran
      exact .back low utxo (by rw [history])

theorem filter_range' {low high : Nat} (h : low < high) :
    (List.range' 1 high).filter (· ≤ low) = List.range' 1 low := by
  obtain ⟨more, rfl⟩ := Nat.exists_eq_add_of_le (Nat.le_of_lt h)
  have none_above : (List.range' (1 + low) more).filter (· ≤ low) = [] := by
    rw [List.filter_eq_nil_iff]
    intro height member
    have bound := (List.mem_range'_1.mp member).1
    simp only [decide_eq_true_eq]
    omega
  have all_below : (List.range' 1 low).filter (· ≤ low) = List.range' 1 low := by
    rw [List.filter_eq_self]
    intro height member
    have bound := (List.mem_range'_1.mp member).2
    simp only [decide_eq_true_eq]
    omega
  have split := List.range'_append_1 (s := 1) (m := low) (n := more)
  rw [← split, List.filter_append, none_above, all_below, List.append_nil]

theorem contiguous_step (contiguous : Contiguous node) (taken : okStep sr node call = some after) :
    Contiguous after := by
  have reflected := (okStep_eq_some taken).2
  rw [Contiguous] at contiguous ⊢
  cases moves taken with
  | header _ same utxo full => rw [reflected, same, utxo, contiguous]
  | block _ same heights utxo full =>
      rw [reflected, same, utxo, List.map_append, List.map_reverse, heights, contiguous,
        ← List.reverse_append, Nat.add_comm node.manager.utxo.height 1, List.range'_append_1]
  | @back height low utxo full =>
      rw [reflected, utxo, Call.reflect, ← filter_range' low, ← List.filter_reverse, ← contiguous,
        List.filter_map]
      rfl

end Step

/-! ### The best full block -/

section BestFullBlock
variable {sr : SigmaRust} {node after : Node} {call : Call}

/-- The history's best full block is the last block in the UTXO set, at the UTXO height. -/
def Agrees (node : Node) : Prop :=
  node.manager.history.bestFullBlockHeight = node.manager.utxo.height ∧
    node.manager.history.bestFullBlockId = node.applied.head?.map FullBlock.id

theorem agrees_iff : Agrees node ↔ fullBlock node.manager.history =
    (node.applied.head?.map FullBlock.id, node.manager.utxo.height) := by
  rw [Agrees, fullBlock, Prod.mk.injEq, and_comm]

theorem agrees_step (agrees : Agrees node) (forward : NotRollback call)
    (taken : okStep sr node call = some after) : Agrees after := by
  have reflected := (okStep_eq_some taken).2
  have best := agrees.1
  rw [agrees_iff] at agrees ⊢
  cases moves taken with
  | header _ same utxo full => rw [reflected, same, utxo, full, agrees]
  | @block _ first rest _ same heights utxo full =>
      rw [reflected, same, utxo, full, best, if_pos (by omega)]
      have head : ((first :: rest).reverse ++ node.applied).head? = some (rest.getLastD first) := by
        rw [List.head?_append, List.head?_reverse, List.getLast?_cons, List.getLastD_eq_getLast?]
        rfl
      rw [head]
      rfl
  | back low utxo full => exact absurd rfl (forward _)

theorem agrees_not_after_rollback (agrees : Agrees node) (taken : okStep sr node call = some after)
    (agreesAfter : Agrees after) : NotRollback call := by
  cases moves taken with
  | header forward => exact forward
  | block forward => exact forward
  | back low utxo full =>
      have kept : after.manager.history.bestFullBlockHeight =
        node.manager.history.bestFullBlockHeight := congrArg Prod.snd full
      rw [agreesAfter.1, agrees.1, utxo] at kept
      exact absurd kept (Nat.ne_of_lt low)

/-- The best full block agrees with the UTXO set in every state of a run exactly when the run rolls
nothing back. -/
theorem bestFullBlock_iff (sr : SigmaRust) (faults : List Bool) (mode : StateRootVerification)
    (calls : List Call) (allOk : (run (okStep sr) (emptyNode faults mode) calls).isSome) :
    Always (okStep sr) Agrees (emptyNode faults mode) calls ↔
      ∀ call ∈ calls, NotRollback call := by
  obtain ⟨final, ran⟩ := Option.isSome_iff_exists.mp allOk
  have runs := always_iff_along (P := fun _ call => NotRollback call) agrees_step
    agrees_not_after_rollback id (⟨rfl, rfl⟩ : Agrees (emptyNode faults mode)) ran
  rw [runs, along_actions ran]

end BestFullBlock

/-! ### The parents of applied blocks -/

section ParentChain
variable {sr : SigmaRust} {node after : Node} {call : Call}

def ParentChain (node : Node) : Prop :=
  ∀ upper ∈ node.applied, ∀ lower ∈ node.applied, upper.height = lower.height + 1 →
    upper.parentId = lower.id

def Extends (upper lower : FullBlock) : Prop := upper.parentId = lower.id

def LinkedBlocks (node : Node) (blocks : List FullBlock) : Prop :=
  (∀ first ∈ blocks.head?, ∀ top ∈ node.applied.head?, Extends first top) ∧
    blocks.IsChain (fun lower upper => Extends upper lower)

def Call.blocks : Call → List FullBlock
  | .applyBlock block _ => [block]
  | .applyBlocksBatched blocks => blocks.map Prod.fst
  | _ => []

def Linked (node : Node) (call : Call) : Prop := LinkedBlocks node call.blocks

instance (upper lower : FullBlock) : Decidable (Extends upper lower) :=
  inferInstanceAs (Decidable (upper.parentId = lower.id))

instance (node : Node) (call : Call) : Decidable (Linked node call) :=
  inferInstanceAs (Decidable ((∀ first ∈ call.blocks.head?, ∀ top ∈ node.applied.head?,
    Extends first top) ∧ call.blocks.IsChain (fun lower upper => Extends upper lower)))

theorem parentChain_iff (contiguous : Contiguous node) :
    ParentChain node ↔ node.applied.IsChain Extends := by
  have length : node.applied.length = node.manager.utxo.height := by
    simpa using congrArg List.length contiguous
  have height (i : Nat) (bound : i < node.applied.length) :
      node.applied[i].height = node.manager.utxo.height - i := by
    have at_i : (node.applied.map FullBlock.height)[i]? =
        ((List.range' 1 node.manager.utxo.height).reverse)[i]? := by rw [contiguous]
    rw [List.getElem?_map, List.getElem?_eq_getElem bound,
      List.getElem?_reverse (by simpa [length] using bound), List.length_range',
      List.getElem?_range' (by omega)] at at_i
    simp only [Option.map_some, Option.some.injEq] at at_i
    omega
  rw [List.isChain_iff_getElem]
  constructor
  · intro chain i bound
    refine chain _ (List.getElem_mem _) _ (List.getElem_mem _) ?_
    rw [height, height]
    omega
  · intro chain upper upperMem lower lowerMem above
    obtain ⟨i, iBound, rfl⟩ := List.getElem_of_mem upperMem
    obtain ⟨j, jBound, rfl⟩ := List.getElem_of_mem lowerMem
    rw [height, height] at above
    have next : j = i + 1 := by omega
    subst next
    exact chain i jBound

/-- A call keeps the parent chain exactly when it is linked: block calls put their blocks on top,
and a rollback only takes blocks off. -/
theorem parentChain_step (contiguous : Contiguous node) (chain : ParentChain node)
    (taken : okStep sr node call = some after) : ParentChain after ↔ Linked node call := by
  have contiguousAfter := contiguous_step contiguous taken
  have reflected := (okStep_eq_some taken).2
  have below := (parentChain_iff contiguous).mp chain
  have pushed (same : call.reflect node.applied = call.blocks.reverse ++ node.applied) :
      ParentChain after ↔ Linked node call := by
    rw [parentChain_iff contiguousAfter, reflected, same, List.isChain_append, List.isChain_reverse,
      List.getLast?_reverse, Linked, LinkedBlocks]
    constructor
    · rintro ⟨inside, -, first⟩
      exact ⟨first, inside⟩
    · rintro ⟨first, inside⟩
      exact ⟨inside, below, first⟩
  cases call with
  | rollbackTo height =>
      refine iff_of_true ?_ ⟨by simp [Call.blocks], .nil⟩
      intro upper upperMem lower lowerMem
      rw [reflected] at upperMem lowerMem
      exact chain upper (List.mem_filter.mp upperMem).1 lower (List.mem_filter.mp lowerMem).1
  | _ => exact pushed rfl

/-- The blocks in the UTXO set form a parent chain in every state of a run exactly when each call
of the run is linked. -/
theorem parentChain_iff_linked (sr : SigmaRust) (faults : List Bool) (mode : StateRootVerification)
    (calls : List Call) (allOk : (run (okStep sr) (emptyNode faults mode) calls).isSome) :
    Always (okStep sr) ParentChain (emptyNode faults mode) calls ↔
      Along (okStep sr) Linked (emptyNode faults mode) calls := by
  obtain ⟨final, ran⟩ := Option.isSome_iff_exists.mp allOk
  have start : Contiguous (emptyNode faults mode) ∧ ParentChain (emptyNode faults mode) :=
    ⟨contiguous_emptyNode faults mode, by simp [ParentChain, emptyNode]⟩
  exact always_iff_along
    (fun inv linked taken =>
      ⟨contiguous_step inv.1 taken, (parentChain_step inv.1 inv.2 taken).mpr linked⟩)
    (fun inv taken chain => (parentChain_step inv.1 inv.2 taken).mp chain) And.right start ran

end ParentChain

section Samples
open Sample

instance (node : Node) : Decidable (Agrees node) := inferInstanceAs (Decidable (_ ∧ _))

def forwardCalls : List Call :=
  [.applyBlock (sampleBlock header11) firstChange,
    .applyBlocksBatched [(sampleBlock header12, ⟨[sampleEntry 3 2], [.filled 1]⟩)]]

theorem forwardCalls_agree :
    Always (okStep chainCodec) Agrees (emptyNode [] .warnOnly) forwardCalls :=
  (bestFullBlock_iff chainCodec [] .warnOnly forwardCalls (by decide)).mpr
    (by simp [forwardCalls, NotRollback])

def rolledBackCalls : List Call := [.applyBlock (sampleBlock header11) firstChange, .rollbackTo 0]

/-- After the rollback the best full block is still at height 1. -/
theorem rolledBackCalls_disagree :
    (run (okStep chainCodec) (emptyNode [] .warnOnly) rolledBackCalls).isSome ∧
      ¬ Always (okStep chainCodec) Agrees (emptyNode [] .warnOnly) rolledBackCalls := by
  refine ⟨by decide, fun always => ?_⟩
  have last : ∀ node, run (okStep chainCodec) (emptyNode [] .warnOnly) rolledBackCalls = some node →
      ¬ Agrees node := by
    rintro node ⟨⟩
    decide
  exact last _ rfl (always _ ⟨rolledBackCalls, List.prefix_rfl, rfl⟩)

def linkedCalls : List Call :=
  [.applyBlock (sampleBlock header11) firstChange,
    .applyBlocksBatched [(sampleBlock header12, emptyChange), (sampleBlock header13, emptyChange)],
    .rollbackTo 1, .applyBlock (sampleBlock header22) emptyChange]

theorem linkedCalls_parentChain :
    Always (okStep chainCodec) ParentChain (emptyNode [] .warnOnly) linkedCalls :=
  (parentChain_iff_linked chainCodec [] .warnOnly linkedCalls (by decide)).mpr (by decide)

def crossedCalls : List Call :=
  [.applyBlock (sampleBlock header11) firstChange, .applyBlock (sampleBlock header12) emptyChange,
    .applyBlock (sampleBlock header23) emptyChange]

theorem crossedCalls_not_parentChain :
    (run (okStep chainCodec) (emptyNode [] .warnOnly) crossedCalls).isSome ∧
      ¬ Always (okStep chainCodec) ParentChain (emptyNode [] .warnOnly) crossedCalls := by
  refine ⟨by decide, fun always => ?_⟩
  have last : ∀ node, run (okStep chainCodec) (emptyNode [] .warnOnly) crossedCalls = some node →
      ¬ ParentChain node := by
    rintro node ⟨⟩ chain
    exact absurd (chain (sampleBlock header23) (by decide) (sampleBlock header12) (by decide) rfl)
      (by decide)
  exact last _ rfl (always _ ⟨crossedCalls, List.prefix_rfl, rfl⟩)

end Samples

end ErgoNode.Proof.Manager
