import ErgoNode.Lib.Run
import ErgoNode.Proof.Sync.Tracking
import ErgoNode.Sync.Heights
import Mathlib.Order.Bounds.Defs

/-!
# The best header and the headers of a SyncInfo

The header that came last stands for the best one in two places: at the back of the queue of the header
chain and in front of the headers that a SyncInfo lists. Both are right as long as headers come in by height.
-/

namespace ErgoNode.Proof.Sync
open Lib SyncHeights

/-! ### The queue -/

theorem headers_foldl_dropHeader (surplus : List Header) (chain : HeaderChain) :
    (surplus.foldl HeaderChain.dropHeader chain).headers = chain.headers.drop surplus.length := by
  induction surplus generalizing chain with
  | nil => rfl
  | cons oldest rest ih =>
      rw [List.foldl_cons, ih, HeaderChain.dropHeader, headers_removeHeader, List.drop_tail, List.length_cons]

theorem headers_foldl_dropBlock (surplus : List ModifierId) (chain : HeaderChain) :
    (surplus.foldl HeaderChain.dropBlock chain).headers = chain.headers := by
  induction surplus generalizing chain with
  | nil => rfl
  | cons oldest rest ih =>
      rw [List.foldl_cons, ih, HeaderChain.dropBlock]
      dsimp only
      split <;> rfl

theorem headers_enforceLimits (chain : HeaderChain) :
    chain.enforceLimits.headers = chain.headers.drop (chain.headers.length - HeaderChain.maxCachedHeaders) := by
  have trimmed : (chain.headers.take (chain.headers.length - HeaderChain.maxCachedHeaders)).length =
      chain.headers.length - HeaderChain.maxCachedHeaders := List.length_take_of_le (Nat.sub_le ..)
  refine (headers_foldl_dropBlock _ _).trans ?_
  rw [headers_foldl_dropHeader, trimmed]

theorem drop_surplus (limit : Nat) (positive : 0 < limit) (queue : List Header) (header : Header) :
    (queue ++ [header]).drop ((queue ++ [header]).length - limit) =
      queue.drop (queue.length + 1 - limit) ++ [header] := by
  rw [List.length_append, List.length_singleton, List.drop_append_of_le_length (by omega)]

theorem headers_addHeader (chain : HeaderChain) (header : Header) (txId : ModifierId) (headerId : Bytes) :
    (chain.addHeader header txId headerId).headers =
      chain.headers.drop (chain.headers.length + 1 - HeaderChain.maxCachedHeaders) ++ [header] :=
  (headers_enforceLimits _).trans (drop_surplus HeaderChain.maxCachedHeaders (by decide) chain.headers header)

def added (s : SyncHeights) : Call → Option (Header × List Header)
  | .addHeader header _ _ => some (header, s.headers.drop (s.headers.length + 1 - HeaderChain.maxCachedHeaders))
  | .trackHeader header _ _ => some (header, s.headers)
  | .removeHeader _ | .setHeight _ => none

@[simp] theorem headers_withChain (s : SyncHeights) (chain : HeaderChain) :
    (s.withChain chain).headers = chain.headers := rfl

section Steps
variable {s t : SyncHeights} {call : Call} {header : Header} {kept : List Header}

theorem headers_of_added (adds : added s call = some (header, kept)) (taken : step s call = some t) :
    t.headers = kept ++ [header] := by
  cases call with
  | addHeader other txId headerId =>
      cases adds
      cases taken
      rw [headers_withChain, headers_addHeader]
  | trackHeader other txId headerId =>
      cases adds
      cases taken
      rfl
  | removeHeader headerId => cases adds
  | setHeight height => cases adds

theorem headers_of_not_added (adds : added s call = none) (taken : step s call = some t) : t.headers = s.headers := by
  cases call with
  | addHeader other txId headerId => cases adds
  | trackHeader other txId headerId => cases adds
  | removeHeader headerId =>
      cases taken
      exact headers_removeHeader
  | setHeight height =>
      cases taken
      rfl

theorem getLast?_kept (adds : added s call = some (header, kept)) : kept.getLast? = s.headers.getLast? := by
  cases call with
  | addHeader other txId headerId =>
      cases adds
      rw [List.getLast?_drop]
      split
      · next all =>
          have two : 1 < HeaderChain.maxCachedHeaders := by decide
          have none : s.headers.length = 0 := by
            generalize HeaderChain.maxCachedHeaders = limit at all two
            omega
          rw [List.length_eq_zero_iff.mp none, List.getLast?_nil]
      · rfl
  | trackHeader other txId headerId =>
      cases adds
      rfl
  | removeHeader headerId => cases adds
  | setHeight height => cases adds

/-! ### The best height -/

def Highest (s : SyncHeights) : Prop :=
  s.headers ≠ [] → IsGreatest {height | ∃ header ∈ s.headers, header.height = height} s.bestHeaderHeight

def NotLowered (s : SyncHeights) (call : Call) : Prop :=
  (added s call).isSome → ∀ t, step s call = some t → s.bestHeaderHeight ≤ t.bestHeaderHeight

/-- A header that is added is as high as those that stay in the queue; the first one as high as our height. -/
def Rising (s : SyncHeights) (call : Call) : Prop :=
  ∀ header kept, added s call = some (header, kept) →
    (s.headers = [] → s.synchronizer.ourHeight ≤ header.height) ∧ ∀ other ∈ kept, other.height ≤ header.height

theorem bestHeaderHeight_of_added (adds : added s call = some (header, kept)) (taken : step s call = some t) :
    t.bestHeaderHeight = header.height := by
  unfold bestHeaderHeight
  rw [headers_of_added adds taken, List.getLast?_concat]
  rfl

theorem highest_of_added (adds : added s call = some (header, kept)) (taken : step s call = some t) :
    Highest t ↔ ∀ other ∈ kept, other.height ≤ header.height := by
  unfold Highest
  rw [bestHeaderHeight_of_added adds taken, headers_of_added adds taken]
  constructor
  · intro highest other member
    exact (highest (List.append_ne_nil_of_right_ne_nil _ (List.cons_ne_nil header []))).2
      ⟨other, List.mem_append_left _ member, rfl⟩
  · intro below _
    refine ⟨⟨header, List.mem_append_right _ List.mem_cons_self, rfl⟩, ?_⟩
    rintro _ ⟨other, member, rfl⟩
    rcases List.mem_append.mp member with earlier | last
    · exact below other earlier
    · rw [List.mem_singleton.mp last]

theorem highest_of_not_added (highest : Highest s) (adds : added s call = none) (taken : step s call = some t) :
    Highest t := by
  intro nonempty
  have same := headers_of_not_added adds taken
  rw [same] at nonempty
  have read := highest nonempty
  unfold bestHeaderHeight at read ⊢
  rw [List.getLast?_eq_some_getLast nonempty] at read
  rw [same, List.getLast?_eq_some_getLast nonempty]
  exact read

theorem rising_bestHeaderHeight (adds : added s call = some (header, kept)) (rising : Rising s call) :
    s.bestHeaderHeight ≤ header.height := by
  obtain ⟨first, below⟩ := rising header kept adds
  unfold bestHeaderHeight
  cases last : s.headers.getLast? with
  | none => exact first (List.getLast?_eq_none_iff.mp last)
  | some other =>
      rw [← getLast?_kept adds] at last
      exact below other (List.mem_of_getLast? last)

theorem rising_of_kept (adds : added s call = some (header, kept)) (taken : step s call = some t)
    (highest : Highest t) (grown : s.bestHeaderHeight ≤ t.bestHeaderHeight) : Rising s call := by
  intro other beside same
  rw [adds] at same
  cases same
  refine ⟨fun empty => ?_, (highest_of_added adds taken).mp highest⟩
  rw [bestHeaderHeight_of_added adds taken] at grown
  unfold bestHeaderHeight at grown
  rw [empty] at grown
  exact grown

theorem highest_step (highest : Highest s) (rising : Rising s call) (taken : step s call = some t) : Highest t := by
  cases adds : added s call with
  | none => exact highest_of_not_added highest adds taken
  | some entry =>
      obtain ⟨header, kept⟩ := entry
      exact (highest_of_added adds taken).mpr (rising header kept adds).2

theorem notLowered_of_rising (rising : Rising s call) : NotLowered s call := by
  intro adds t taken
  obtain ⟨⟨header, kept⟩, adds⟩ := Option.isSome_iff_exists.mp adds
  rw [bestHeaderHeight_of_added adds taken]
  exact rising_bestHeaderHeight adds rising

end Steps

theorem highest_new : Highest .new := fun nonempty => absurd rfl nonempty

/-- The best height is the greatest in the queue, and falls with no header that is added, exactly in the runs
in which headers come in by height. -/
theorem bestHeaderHeight_highest_iff (calls : List Call) :
    (Always step Highest .new calls ∧ Along step NotLowered .new calls) ↔ Along step Rising .new calls := by
  constructor
  · rintro ⟨highest, notLowered⟩ before call prefixed s ran
    have grown := notLowered before call prefixed s ran
    intro header kept adds
    obtain ⟨t, taken⟩ : ∃ t, step s call = some t := by cases call <;> exact ⟨_, rfl⟩
    have reached : Visits step .new calls t := by
      refine ⟨before ++ [call], prefixed, ?_⟩
      rw [run_append, ran]
      exact (run_cons_eq_some).mpr ⟨t, taken, rfl⟩
    exact rising_of_kept adds taken (highest t reached) (grown (by rw [adds]; rfl) t taken) header kept adds
  · intro rising
    refine ⟨rising.invariant Highest highest_step highest_new, ?_⟩
    intro before call prefixed s ran
    exact notLowered_of_rising (rising before call prefixed s ran)

/-! ### The headers of a SyncInfo -/

abbrev NewestFirst (headers : List Header) : Prop := headers.Pairwise fun newer older => older.height < newer.height

/-- Strictly descending, from a header as high as any that is stored; a SyncInfo V2 lists such headers. -/
structure ListedByHeight (sr : SigmaRust) (stored : List Header) (s : SyncHeights) : Prop where
  descending : NewestFirst s.v2SyncHeaders
  highest : ∀ header ∈ stored, ∃ first ∈ s.v2SyncHeaders.head?, header.height ≤ first.height
  sent : (s.buildV2SyncInfo sr).isV2 → ∃ sent, NewestFirst sent ∧
    sent.mapM sr.headerBytes = .ok (s.buildV2SyncInfo sr).lastHeaders

section SyncInfos
variable {sr : SigmaRust} {s : SyncHeights} {headers : List Header}

theorem sent_sublist (sr : SigmaRust) (headers : List Header) : ∃ sent : List Header, sent.Sublist headers ∧
    sent.mapM sr.headerBytes = .ok (headers.filterMap fun header => (sr.headerBytes header).toOption) := by
  induction headers with
  | nil => exact ⟨[], .slnil, rfl⟩
  | cons header rest ih =>
      obtain ⟨sent, sublist, written⟩ := ih
      cases bytes : sr.headerBytes header with
      | error e => exact ⟨sent, sublist.cons header, by simpa [bytes, Except.toOption] using written⟩
      | ok bytes' =>
          refine ⟨header :: sent, sublist.cons_cons header, ?_⟩
          rw [List.mapM_cons, bytes, List.filterMap_cons_some (by rw [bytes]; rfl)]
          simp [written, bind, Except.bind, pure, Except.pure]

theorem sent_newestFirst (descending : NewestFirst s.v2SyncHeaders) (v2 : (s.buildV2SyncInfo sr).isV2) :
    ∃ sent, NewestFirst sent ∧ sent.mapM sr.headerBytes = .ok (s.buildV2SyncInfo sr).lastHeaders := by
  obtain ⟨sent, sublist, written⟩ := sent_sublist sr s.v2SyncHeaders
  refine ⟨sent, descending.sublist sublist, written.trans ?_⟩
  unfold buildV2SyncInfo at v2 ⊢
  split
  · next none =>
      rw [if_pos none] at v2
      cases v2
  · rfl

theorem tail_foldl_storeHeader (headers : List Header) (s : SyncHeights) :
    (headers.foldl (storeHeader sr) s).v2SyncHeaders.tail = s.v2SyncHeaders.tail := by
  induction headers generalizing s with
  | nil => rfl
  | cons header rest ih => rw [List.foldl_cons, ih, storeHeader, List.tail_cons]

theorem v2SyncHeaders_stored (before : List Header) (header : Header) (s : SyncHeights) :
    ((before ++ [header]).foldl (storeHeader sr) s).v2SyncHeaders = header :: s.v2SyncHeaders.tail := by
  rw [List.foldl_append, List.foldl_cons, List.foldl_nil, storeHeader, tail_foldl_storeHeader]

theorem v2SyncHeaders_init {allHeaderIds : List Bytes} {v2Headers : List Header}
    (known : allHeaderIds = [] → v2Headers = []) :
    (initFromStoredHeaders .new allHeaderIds v2Headers).v2SyncHeaders = v2Headers := by
  unfold initFromStoredHeaders
  split
  · next none => exact (none.elim known id).symm
  · rfl

theorem le_head {first : Header} (descending : NewestFirst headers) (front : first ∈ headers.head?) :
    ∀ header ∈ headers, header.height ≤ first.height := by
  obtain ⟨rest, rfl⟩ := List.head?_eq_some_iff.mp front
  intro header member
  rcases List.mem_cons.mp member with rfl | later
  · exact Nat.le_refl _
  · exact Nat.le_of_lt (List.rel_of_pairwise_cons descending later)

theorem exists_head (descending : NewestFirst headers) {header : Header} (member : header ∈ headers) :
    ∃ first ∈ headers.head?, header.height ≤ first.height :=
  ⟨headers.head (List.ne_nil_of_mem member), List.head?_eq_some_head _,
    le_head descending (List.head?_eq_some_head _) header member⟩

theorem newestFirst_replaced {header : Header} (descending : NewestFirst headers)
    (above : ∀ earlier ∈ headers, earlier.height ≤ header.height) : NewestFirst (header :: headers.tail) := by
  refine List.pairwise_cons.mpr ⟨fun older member => ?_, descending.tail⟩
  cases headers with
  | nil => cases member
  | cons first rest =>
      exact Nat.lt_of_lt_of_le (List.rel_of_pairwise_cons descending member) (above first List.mem_cons_self)

end SyncInfos

/-- The list stays in order, with the highest header in front, exactly if it was in order and headers are
stored by height. -/
theorem v2SyncHeaders_listed_iff (sr : SigmaRust) (allHeaderIds : List Bytes) (v2Headers : List Header)
    (known : allHeaderIds = [] → v2Headers = []) (headers : List Header) :
    (∀ before, before <+: headers → ListedByHeight sr (v2Headers ++ before)
      (before.foldl (storeHeader sr) (initFromStoredHeaders .new allHeaderIds v2Headers))) ↔
    NewestFirst v2Headers ∧
      ∀ before header, before ++ [header] <+: headers →
        ∀ earlier ∈ v2Headers ++ before, earlier.height ≤ header.height := by
  have loaded := v2SyncHeaders_init known
  constructor
  · intro listed
    constructor
    · have start := (listed [] List.nil_prefix).descending
      rwa [List.foldl_nil, loaded] at start
    · intro before header prefixed earlier member
      obtain ⟨first, front, le⟩ := (listed (before ++ [header]) prefixed).highest earlier
        (by rw [← List.append_assoc]; exact List.mem_append_left _ member)
      rw [v2SyncHeaders_stored] at front
      cases front
      exact le
  · rintro ⟨descending, rising⟩ before prefixed
    suffices order :
        NewestFirst (before.foldl (storeHeader sr) (initFromStoredHeaders .new allHeaderIds v2Headers)).v2SyncHeaders ∧
        ∀ header ∈ v2Headers ++ before, ∃ first ∈ (before.foldl (storeHeader sr)
          (initFromStoredHeaders .new allHeaderIds v2Headers)).v2SyncHeaders.head?, header.height ≤ first.height from
      ⟨order.1, order.2, sent_newestFirst order.1⟩
    cases before using List.reverseRecOn with
    | nil =>
        rw [List.foldl_nil, loaded, List.append_nil]
        exact ⟨descending, fun header member => exists_head descending member⟩
    | append_singleton before last _ =>
        have above := rising before last prefixed
        rw [v2SyncHeaders_stored, loaded]
        refine ⟨newestFirst_replaced descending fun earlier member => above earlier (List.mem_append_left _ member), ?_⟩
        intro header member
        refine ⟨last, rfl, ?_⟩
        rw [← List.append_assoc] at member
        rcases List.mem_append.mp member with earlier | same
        · exact above header earlier
        · rw [List.mem_singleton.mp same]

section Samples
open Sample

/-- A header that is asked for again is lower than the one before it. -/
theorem bestHeaderHeight_requested_again :
    ¬ Always step Highest .new
      [.addHeader header13 [3] header13.id.bytes, .trackHeader header12 [2] header12.id.bytes] := by
  intro highest
  have last := highest _ ⟨_, List.prefix_rfl, rfl⟩ (by decide)
  exact absurd (last.2 ⟨header13, by decide, rfl⟩) (by decide)

theorem v2SyncHeaders_listed_two : NewestFirst [header12, header11] ∧ ∀ before, before <+: [header13] →
    ListedByHeight chainCodec ([header12, header11] ++ before)
      (before.foldl (storeHeader chainCodec)
        (initFromStoredHeaders .new [header11.id.bytes, header12.id.bytes] [header12, header11])) := by
  have descending : NewestFirst [header12, header11] := by decide
  refine ⟨descending, (v2SyncHeaders_listed_iff chainCodec [header11.id.bytes, header12.id.bytes] [header12, header11]
    (by decide) [header13]).mpr ⟨descending, ?_⟩⟩
  intro before header prefixed
  cases before with
  | nil =>
      obtain rfl : header = header13 := by simpa using prefixed
      decide
  | cons first before =>
      have short := prefixed.length_le
      simp at short

/-- The other branch is stored after the best header, at the height of the header behind it. -/
theorem v2SyncHeaders_fork : ¬ ∀ before, before <+: [header22] →
    ListedByHeight chainCodec ([header13, header12] ++ before)
    (before.foldl (storeHeader chainCodec)
      (initFromStoredHeaders .new [header12.id.bytes, header13.id.bytes] [header13, header12])) := by
  intro listed
  exact absurd (listed [header22] List.prefix_rfl).descending (by decide)

end Samples

end ErgoNode.Proof.Sync
