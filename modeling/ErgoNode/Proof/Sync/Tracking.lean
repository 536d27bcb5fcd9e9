import ErgoNode.Lib.Run
import ErgoNode.Proof.Sample
import ErgoNode.Sync.Protocol

/-!
# Headers whose blocks are awaited

The header chain keeps a header under its id and maps its id to that of its transactions section and
back. A block that comes in takes away the way back only; the way there is needed once the block has been
applied. A header that is queued twice loses its mappings with the older of its entries.
-/

namespace ErgoNode.Proof.Sync
open Lib

section Lookups
variable {chain : HeaderChain} {headerId other : Bytes} {txId : ModifierId}

theorem headerIdToTxId_removeHeader :
    (chain.removeHeader headerId).headerIdToTxId.lookup other =
      if other = headerId then none else chain.headerIdToTxId.lookup other := by
  unfold HeaderChain.removeHeader
  by_cases same : other = headerId
  · subst same
    cases held : chain.headerIdToTxId.lookup other with
    | none => simp [held]
    | some txId => simp [held]
  · cases held : chain.headerIdToTxId.lookup headerId with
    | none => simp [held, same]
    | some txId => simp [held, same]

theorem txIdToHeaderId_removeHeader :
    (chain.removeHeader headerId).txIdToHeaderId.lookup txId =
      if chain.headerIdToTxId.lookup headerId = some txId then none else chain.txIdToHeaderId.lookup txId := by
  unfold HeaderChain.removeHeader
  cases held : chain.headerIdToTxId.lookup headerId with
  | none => simp [held]
  | some held' =>
      by_cases same : held' = txId
      · subst same
        simp [held]
      · simp [held, same, AList.lookup_erase_ne (Ne.symm same)]

theorem mem_headersById_removeHeader :
    other ∈ (chain.removeHeader headerId).headersById ↔ other ≠ headerId ∧ other ∈ chain.headersById := by
  unfold HeaderChain.removeHeader
  dsimp only
  split <;> exact AList.mem_erase

@[simp] theorem missingBlocks_removeHeader : (chain.removeHeader headerId).missingBlocks = chain.missingBlocks := by
  unfold HeaderChain.removeHeader
  dsimp only
  split <;> rfl

end Lookups

/-! ### What the operations keep -/

structure Tracking where
  chain : HeaderChain
  delivered : List ModifierId

/-- The two maps are inverse but for the blocks that have come in, and know the headers that are kept. -/
structure Mapped (s : Tracking) : Prop where
  keys : ∀ headerId, headerId ∈ s.chain.headerIdToTxId ↔ headerId ∈ s.chain.headersById
  inverse : ∀ txId headerId, s.chain.txIdToHeaderId.lookup txId = some headerId ↔
    s.chain.headerIdToTxId.lookup headerId = some txId ∧ txId ∉ s.delivered

def SectionsApart (sr : SigmaRust) (headers : List Header) : Prop :=
  ∀ first ∈ headers, ∀ second ∈ headers, transactionsId sr first = transactionsId sr second ↔ first.id = second.id

instance (sr : SigmaRust) (headers : List Header) : Decidable (SectionsApart sr headers) := by
  unfold SectionsApart
  infer_instance

structure Derived (sr : SigmaRust) (headers : List Header) (s : Tracking) : Prop where
  mapped : Mapped s
  derived : ∀ {headerId txId}, s.chain.headerIdToTxId.lookup headerId = some txId →
    ∃ header ∈ headers, header.id.bytes = headerId ∧ transactionsId sr header = txId
  none : s.chain.missingBlocks = []

section Operations
variable {sr : SigmaRust} {headers : List Header} {s : Tracking} {header : Header}

theorem Derived.removeHeader (derived : Derived sr headers s) (headerId : Bytes) :
    Derived sr headers { s with chain := s.chain.removeHeader headerId } := by
  have inverse := derived.mapped.inverse
  refine ⟨⟨fun other => ?_, fun txId other => ?_⟩, fun {other txId} tracked => ?_, by simp [derived.none]⟩
  · rw [mem_headersById_removeHeader, ← derived.mapped.keys, ← AList.lookup_isSome, headerIdToTxId_removeHeader,
      ← AList.lookup_isSome]
    by_cases same : other = headerId <;> simp [same]
  · rw [txIdToHeaderId_removeHeader, headerIdToTxId_removeHeader]
    by_cases held : s.chain.headerIdToTxId.lookup headerId = some txId
    · rw [if_pos held]
      refine ⟨nofun, fun ⟨tracked, awaited⟩ => ?_⟩
      obtain ⟨apart, tracked⟩ := Option.ite_none_left_eq_some.mp tracked
      have back := (inverse txId headerId).mpr ⟨held, awaited⟩
      rw [(inverse txId other).mpr ⟨tracked, awaited⟩] at back
      exact absurd (Option.some.inj back) apart
    · rw [if_neg held, inverse]
      by_cases same : other = headerId
      · subst same
        simp [held]
      · rw [if_neg same]
  · dsimp only at tracked
    rw [headerIdToTxId_removeHeader] at tracked
    exact derived.derived (Option.ite_none_left_eq_some.mp tracked).2

theorem Derived.track (derived : Derived sr headers s) (apart : SectionsApart sr headers) (member : header ∈ headers) :
    Derived sr headers
      { chain := s.chain.trackHeader header (transactionsId sr header) header.id.bytes
        delivered := s.delivered.filter (· ≠ transactionsId sr header) } := by
  have inverse := derived.mapped.inverse
  have unique {headerId : Bytes} {txId : ModifierId} (tracked : s.chain.headerIdToTxId.lookup headerId = some txId) :
      transactionsId sr header = txId ↔ header.id.bytes = headerId := by
    obtain ⟨other, here, rfl, rfl⟩ := derived.derived tracked
    rw [apart header member other here, Digest32.mk.injEq]
  have tracked (other : Bytes) :
      (s.chain.trackHeader header (transactionsId sr header) header.id.bytes).headerIdToTxId.lookup other =
        if other = header.id.bytes then some (transactionsId sr header) else s.chain.headerIdToTxId.lookup other := by
    by_cases same : other = header.id.bytes
    · subst same
      simp [HeaderChain.trackHeader]
    · simp [HeaderChain.trackHeader, same]
  have back (txId : ModifierId) :
      (s.chain.trackHeader header (transactionsId sr header) header.id.bytes).txIdToHeaderId.lookup txId =
        if txId = transactionsId sr header then some header.id.bytes else s.chain.txIdToHeaderId.lookup txId := by
    by_cases same : txId = transactionsId sr header
    · subst same
      simp [HeaderChain.trackHeader]
    · simp [HeaderChain.trackHeader, same]
  refine ⟨⟨fun other => ?_, fun txId other => ?_⟩, fun {other txId} found => ?_, derived.none⟩
  · simp only [HeaderChain.trackHeader, AList.mem_insert, derived.mapped.keys]
  · dsimp only
    rw [back, tracked]
    by_cases sameTx : txId = transactionsId sr header
    · subst sameTx
      by_cases same : other = header.id.bytes
      · simp [same]
      · rw [if_pos rfl, if_neg same, Option.some.injEq]
        exact ⟨fun equal => absurd equal.symm same, fun old => absurd ((unique old.1).mp rfl).symm same⟩
    · rw [if_neg sameTx]
      by_cases same : other = header.id.bytes
      · rw [if_pos same, inverse, Option.some.injEq]
        exact ⟨fun old => absurd ((unique old.1).mpr same.symm).symm sameTx, fun new => absurd new.1.symm sameTx⟩
      · rw [if_neg same, inverse]
        simp [sameTx]
  · dsimp only at found
    rw [tracked] at found
    split at found
    · next same => exact ⟨header, member, same.symm, Option.some.inj found⟩
    · exact derived.derived found

theorem Derived.receive (derived : Derived sr headers s) (txId : ModifierId) :
    Derived sr headers
      { chain := { s.chain with txIdToHeaderId := s.chain.txIdToHeaderId.erase txId }
        delivered := txId :: s.delivered } := by
  refine ⟨⟨derived.mapped.keys, fun other headerId => ?_⟩, derived.derived, derived.none⟩
  dsimp only
  by_cases same : other = txId
  · subst same
    simp
  · rw [AList.lookup_erase_ne same, derived.mapped.inverse]
    simp [same]

theorem Derived.enforceLimits (derived : Derived sr headers s) :
    Derived sr headers { s with chain := s.chain.enforceLimits } := by
  have dropped (surplus : List Header) {chain : HeaderChain} (here : Derived sr headers { s with chain }) :
      Derived sr headers { s with chain := surplus.foldl HeaderChain.dropHeader chain } := by
    induction surplus generalizing chain with
    | nil => exact here
    | cons old rest ih =>
        have shorter : Derived sr headers { s with chain := { chain with headers := chain.headers.tail } } :=
          ⟨⟨here.mapped.keys, here.mapped.inverse⟩, here.derived, here.none⟩
        exact ih (shorter.removeHeader old.id.bytes)
  have trimmed := dropped (s.chain.headers.take (s.chain.headers.length - HeaderChain.maxCachedHeaders)) derived
  unfold HeaderChain.enforceLimits
  dsimp only
  rw [trimmed.none, List.take_nil, List.foldl_nil]
  exact trimmed

end Operations

/-! ### Runs -/

namespace Tracking

def start : Tracking := ⟨.new, []⟩

inductive Action where
  | addHeader (header : Header)
  | trackHeader (header : Header)
  | removeHeader (headerId : Bytes)
  | receiveBlock (id : ModifierId)
  | enforceLimits

def Action.headers : Action → List Header
  | .addHeader header | .trackHeader header => [header]
  | .removeHeader _ | .receiveBlock _ | .enforceLimits => []

def step (sr : SigmaRust) (s : Tracking) : Action → Option Tracking
  | .addHeader header => some
      { chain := s.chain.addHeader header (transactionsId sr header) header.id.bytes
        delivered := s.delivered.filter (· ≠ transactionsId sr header) }
  | .trackHeader header => some
      { chain := s.chain.trackHeader header (transactionsId sr header) header.id.bytes
        delivered := s.delivered.filter (· ≠ transactionsId sr header) }
  | .removeHeader headerId => some { s with chain := s.chain.removeHeader headerId }
  | .receiveBlock id => some
      { chain := { s.chain with txIdToHeaderId := s.chain.txIdToHeaderId.erase id }
        delivered := id :: s.delivered }
  | .enforceLimits => some { s with chain := s.chain.enforceLimits }

end Tracking

section Steps
variable {sr : SigmaRust} {headers : List Header} {s t : Tracking} {action : Tracking.Action}

theorem Derived.step (derived : Derived sr headers s) (apart : SectionsApart sr headers)
    (known : action.headers ⊆ headers) (taken : Tracking.step sr s action = some t) : Derived sr headers t := by
  cases action with
  | addHeader header =>
      simp only [Tracking.step, HeaderChain.addHeader, Option.some.injEq] at taken
      subst taken
      exact (derived.track apart (known (List.mem_singleton.mpr rfl))).enforceLimits
  | trackHeader header =>
      cases taken
      exact derived.track apart (known (List.mem_singleton.mpr rfl))
  | removeHeader headerId =>
      cases taken
      exact derived.removeHeader headerId
  | receiveBlock id =>
      cases taken
      exact derived.receive id
  | enforceLimits =>
      simp only [Tracking.step, Option.some.injEq] at taken
      subst taken
      exact derived.enforceLimits

end Steps

/-- In every state that is reached the maps are inverse to each other but for the blocks that have come in,
and have exactly the headers that are kept. -/
theorem mapped_reachable (sr : SigmaRust) (actions : List Tracking.Action)
    (apart : SectionsApart sr (actions.flatMap Tracking.Action.headers)) :
    Always (Tracking.step sr) Mapped .start actions := by
  have along : Along (Tracking.step sr)
      (fun _ action => action.headers ⊆ actions.flatMap Tracking.Action.headers) .start actions := by
    intro before action prefixed s reached header member
    exact List.mem_flatMap.mpr ⟨action, prefixed.subset (by simp), member⟩
  have start : Derived sr (actions.flatMap Tracking.Action.headers) .start :=
    ⟨⟨fun _ => Iff.rfl, by simp [Tracking.start, HeaderChain.new]⟩, nofun, rfl⟩
  intro s visited
  exact (along.invariant (Derived sr (actions.flatMap Tracking.Action.headers))
    (fun derived known taken => derived.step apart known taken) start s visited).mapped

/-! ### What is lost -/

def Mutual (s : Tracking) : Prop :=
  ∀ txId headerId, s.chain.txIdToHeaderId.lookup txId = some headerId ↔
    s.chain.headerIdToTxId.lookup headerId = some txId

/-- No header that is still queued loses its mappings to the limits. -/
def Retained (s : Tracking) : Prop :=
  ∀ header ∈ s.chain.enforceLimits.headers, header.id.bytes ∈ s.chain.headersById →
    header.id.bytes ∈ s.chain.enforceLimits.headersById

theorem enforceLimits_of_full {chain : HeaderChain} {oldest : Header} {rest : List Header}
    (queued : chain.headers = oldest :: rest) (full : rest.length = HeaderChain.maxCachedHeaders)
    (none : chain.missingBlocks = []) :
    chain.enforceLimits = { chain with headers := rest }.removeHeader oldest.id.bytes := by
  have surplus : chain.headers.take (chain.headers.length - HeaderChain.maxCachedHeaders) = [oldest] := by
    rw [queued, List.length_cons, full, Nat.add_sub_cancel_left]
    rfl
  unfold HeaderChain.enforceLimits
  rw [surplus]
  dsimp only [List.foldl_cons, List.foldl_nil]
  unfold HeaderChain.dropHeader
  rw [queued, List.tail_cons, missingBlocks_removeHeader]
  dsimp only
  rw [none, List.take_nil, List.foldl_nil]

theorem headers_removeHeader {chain : HeaderChain} {headerId : Bytes} :
    (chain.removeHeader headerId).headers = chain.headers := by
  unfold HeaderChain.removeHeader
  dsimp only
  split <;> rfl

theorem run_trackHeader (sr : SigmaRust) (header : Header) (count : Nat) :
    ∃ t, run (Tracking.step sr) .start (List.replicate (count + 1) (.trackHeader header)) = some t ∧
      t.chain.headers = List.replicate (count + 1) header ∧ header.id.bytes ∈ t.chain.headersById ∧
      t.chain.missingBlocks = [] := by
  induction count with
  | zero => exact ⟨_, rfl, rfl, by simp [HeaderChain.trackHeader], rfl⟩
  | succ count ih =>
      obtain ⟨t, ran, queued, held, none⟩ := ih
      rw [List.replicate_succ', run_append, ran]
      refine ⟨_, rfl, ?_, by simp [HeaderChain.trackHeader], none⟩
      rw [List.replicate_succ', ← queued]
      rfl

section Samples
open Sample

/-- The hash of a section is told apart by the header's id. -/
def sectionCodec : SigmaRust := { codec [] [] [] with blake2b256 := fun bytes => .filled (bytes.getD 1 0) }

def firstTracked : Header := sampleHeader 11 0 1 0
def secondTracked : Header := sampleHeader 12 11 2 0

/-- The first block comes in and its header is tracked again; the second header is removed. -/
def trackingRun : List Tracking.Action :=
  [.trackHeader firstTracked, .addHeader secondTracked, .receiveBlock (transactionsId sectionCodec firstTracked),
    .trackHeader firstTracked, .removeHeader secondTracked.id.bytes, .enforceLimits]

theorem trackingRun_mapped : Always (Tracking.step sectionCodec) Mapped .start trackingRun :=
  mapped_reachable sectionCodec trackingRun (by decide)

/-- A block that comes in leaves the maps unequal, and a queue full of one header loses its mappings. -/
theorem maps_unequal_and_evicted :
    ¬ Always (Tracking.step sectionCodec) Mutual .start
      [.trackHeader firstTracked, .receiveBlock (transactionsId sectionCodec firstTracked)] ∧
    ¬ Always (Tracking.step sectionCodec) Retained .start
      (List.replicate (HeaderChain.maxCachedHeaders + 1) (.trackHeader firstTracked)) := by
  constructor
  · intro always
    have last := always _ ⟨_, List.prefix_rfl, rfl⟩
    have tracked := (last (transactionsId sectionCodec firstTracked) firstTracked.id.bytes).mpr (by decide)
    exact absurd tracked (by decide)
  · intro always
    obtain ⟨t, ran, queued, held, none⟩ := run_trackHeader sectionCodec firstTracked HeaderChain.maxCachedHeaders
    have retained := always t ⟨_, List.prefix_rfl, ran⟩
    have dropped := enforceLimits_of_full (queued.trans List.replicate_succ) List.length_replicate none
    have kept := retained firstTracked
    rw [dropped, headers_removeHeader, mem_headersById_removeHeader] at kept
    exact (kept (List.mem_replicate.mpr ⟨by simp [HeaderChain.maxCachedHeaders], rfl⟩) held).1 rfl

end Samples

end ErgoNode.Proof.Sync
