import Mathlib.Data.List.Forall2

/-!
# Frames on a byte stream

A receiver appends what arrives to a buffer and takes frames off its front as long as there is one.
If a decoder takes a whole frame and leaves the start of one alone, then what it yields does not
depend on how the stream was cut.
-/

namespace Lib
variable {B A ε : Type}

/-- One attempt on a buffer: an error, an item or none yet, and the buffer afterwards. -/
abbrev FrameDecoder (B A ε : Type) := List B → Except ε (Option A) × List B

structure Receiver (B A ε : Type) where
  items : List A
  buffer : List B
  failure : Option ε

namespace FrameDecoder
variable (decode : FrameDecoder B A ε)

/-- Take items off the buffer until there is none. The first argument bounds their number. -/
def drain : Nat → Receiver B A ε → Receiver B A ε
  | 0, r => r
  | more + 1, r =>
      match decode r.buffer with
      | (.error e, buffer) => { r with buffer, failure := some e }
      | (.ok none, buffer) => { r with buffer }
      | (.ok (some a), buffer) => drain more { r with items := r.items ++ [a], buffer }

def feed (r : Receiver B A ε) (chunk : List B) : Receiver B A ε :=
  match r.failure with
  | some _ => r
  | none => decode.drain (r.buffer.length + chunk.length + 1) { r with buffer := r.buffer ++ chunk }

def feedAll (chunks : List (List B)) : Receiver B A ε := chunks.foldl decode.feed ⟨[], [], none⟩

structure Frames (IsFrame : A → List B → Prop) : Prop where
  empty : decode [] = (.ok none, [])
  nonempty : ∀ {a frame}, IsFrame a frame → frame ≠ []
  whole : ∀ {a frame}, IsFrame a frame → ∀ rest, decode (frame ++ rest) = (.ok (some a), rest)
  start : ∀ {a frame}, IsFrame a frame → ∀ {first rest}, first ++ rest = frame → rest ≠ [] →
    decode first = (.ok none, first)

/-- A buffer without a whole frame: empty, or the start of a frame. -/
inductive Pending (IsFrame : A → List B → Prop) : List B → Prop
  | empty : Pending IsFrame []
  | start {a : A} {first rest : List B} (frame : IsFrame a (first ++ rest)) (left : rest ≠ []) :
      Pending IsFrame first

variable {decode} {IsFrame : A → List B → Prop}

theorem Frames.decode_pending (frames : decode.Frames IsFrame) {buffer : List B}
    (pending : Pending IsFrame buffer) : decode buffer = (.ok none, buffer) := by
  cases pending with
  | empty => exact frames.empty
  | start frame left => exact frames.start frame rfl left

theorem Frames.drain_eq (frames : decode.Frames IsFrame) {items : List A} {encoded : List (List B)}
    (each : List.Forall₂ IsFrame items encoded) {buffer : List B} (pending : Pending IsFrame buffer)
    {fuel : Nat} (enough : items.length < fuel) (earlier : List A) :
    decode.drain fuel ⟨earlier, encoded.flatten ++ buffer, none⟩ = ⟨earlier ++ items, buffer, none⟩ := by
  induction each generalizing fuel earlier with
  | nil =>
      cases fuel with
      | zero => cases enough
      | succ more =>
          rw [drain, List.flatten_nil, List.nil_append, frames.decode_pending pending, List.append_nil]
  | @cons a frame items encoded head tail ih =>
      cases fuel with
      | zero => cases enough
      | succ more =>
          rw [drain, List.flatten_cons, List.append_assoc, frames.whole head]
          refine (ih (Nat.lt_of_succ_lt_succ enough) (earlier ++ [a])).trans ?_
          rw [List.append_assoc, List.singleton_append]

/-- The front of a stream of frames is decoded to the first item once its frame is there. -/
theorem Frames.decode_front (frames : decode.Frames IsFrame) {items : List A} {encoded : List (List B)}
    (each : List.Forall₂ IsFrame items encoded) {buffer coming : List B} (stream : buffer ++ coming = encoded.flatten) :
    decode buffer = (.ok none, buffer) ∨ ∃ a later left rest, items = a :: later ∧ List.Forall₂ IsFrame later left ∧
      decode buffer = (.ok (some a), rest) ∧ rest ++ coming = left.flatten := by
  cases each with
  | nil =>
      obtain ⟨rfl, -⟩ := List.append_eq_nil_iff.mp stream
      exact .inl frames.empty
  | @cons a frame later left head tail =>
      rw [List.flatten_cons, List.append_eq_append_iff] at stream
      rcases stream with ⟨missing, frameSplit, comingSplit⟩ | ⟨rest, bufferSplit, behind⟩
      · by_cases none : missing = []
        · subst none
          rw [List.append_nil] at frameSplit
          have whole := frames.whole head []
          rw [List.append_nil, frameSplit] at whole
          exact .inr ⟨a, later, left, [], rfl, tail, whole, comingSplit⟩
        · exact .inl (frames.start head frameSplit.symm none)
      · have whole := frames.whole head rest
        rw [← bufferSplit] at whole
        exact .inr ⟨a, later, left, rest, rfl, tail, whole, behind.symm⟩

theorem split_prefix {items : List A}
    {encoded : List (List B)} (each : List.Forall₂ IsFrame items encoded) {arrived rest : List B}
    (stream : arrived ++ rest = encoded.flatten) :
    ∃ done whole later frames buffer, items = done ++ later ∧ encoded = whole ++ frames ∧
      List.Forall₂ IsFrame done whole ∧ List.Forall₂ IsFrame later frames ∧
      arrived = whole.flatten ++ buffer ∧ Pending IsFrame buffer := by
  induction each generalizing arrived with
  | nil =>
      obtain ⟨rfl, -⟩ := List.append_eq_nil_iff.mp stream
      exact ⟨[], [], [], [], [], rfl, rfl, .nil, .nil, rfl, .empty⟩
  | @cons a frame items encoded head tail ih =>
      rw [List.flatten_cons, List.append_eq_append_iff] at stream
      rcases stream with ⟨left, frameSplit, -⟩ | ⟨past, arrivedSplit, later⟩
      · by_cases none : left = []
        · subst none
          rw [List.append_nil] at frameSplit
          subst frameSplit
          exact ⟨[a], [frame], items, encoded, [], rfl, rfl, .cons head .nil, tail, by simp, .empty⟩
        · exact ⟨[], [], a :: items, frame :: encoded, arrived, rfl, rfl, .nil, .cons head tail, rfl,
            .start (frameSplit ▸ head) none⟩
      · obtain ⟨done, whole, left, frames, buffer, rfl, rfl, before, after, rfl, pending⟩ := ih later.symm
        exact ⟨a :: done, frame :: whole, left, frames, buffer, rfl, rfl, .cons head before, after,
          by rw [arrivedSplit, List.flatten_cons, List.append_assoc], pending⟩

theorem Frames.length_le (frames : decode.Frames IsFrame) {items : List A} {encoded : List (List B)}
    (each : List.Forall₂ IsFrame items encoded) : items.length ≤ encoded.flatten.length := by
  induction each with
  | nil => exact Nat.zero_le _
  | cons head tail ih =>
      have positive := List.length_pos_of_ne_nil (frames.nonempty head)
      rw [List.flatten_cons, List.length_append, List.length_cons]
      omega

theorem Frames.nothing_pending (frames : decode.Frames IsFrame) {items : List A} {encoded : List (List B)}
    (each : List.Forall₂ IsFrame items encoded) (pending : Pending IsFrame encoded.flatten) :
    items = [] ∧ encoded = [] := by
  cases each with
  | nil => exact ⟨rfl, rfl⟩
  | cons head tail =>
      have none := frames.decode_pending pending
      rw [List.flatten_cons, frames.whole head] at none
      cases none

theorem Frames.feed_stream (frames : decode.Frames IsFrame) {chunks : List (List B)} {items : List A}
    {encoded : List (List B)} (each : List.Forall₂ IsFrame items encoded) {buffer : List B}
    (pending : Pending IsFrame buffer) (stream : buffer ++ chunks.flatten = encoded.flatten)
    (earlier : List A) :
    chunks.foldl decode.feed ⟨earlier, buffer, none⟩ = ⟨earlier ++ items, [], none⟩ := by
  induction chunks generalizing items encoded buffer earlier with
  | nil =>
      rw [List.flatten_nil, List.append_nil] at stream
      subst stream
      obtain ⟨rfl, rfl⟩ := frames.nothing_pending each pending
      rw [List.append_nil]
      rfl
  | cons chunk chunks ih =>
      rw [List.flatten_cons, ← List.append_assoc] at stream
      obtain ⟨done, whole, later, rest, left, rfl, rfl, before, after, arrived, waiting⟩ := split_prefix each stream
      have enough : done.length < buffer.length + chunk.length + 1 := by
        have bytes := congrArg List.length arrived
        rw [List.length_append, List.length_append] at bytes
        have few := frames.length_le before
        omega
      have fed : decode.feed ⟨earlier, buffer, none⟩ chunk = ⟨earlier ++ done, left, none⟩ := by
        rw [feed]
        dsimp only
        rw [arrived]
        exact frames.drain_eq before waiting enough earlier
      rw [arrived, List.flatten_append, List.append_assoc] at stream
      rw [List.foldl_cons, fed, ih after waiting (List.append_cancel_left stream), List.append_assoc]

/-- However a stream of frames is cut, exactly its items come out. -/
theorem Frames.feedAll_eq (frames : decode.Frames IsFrame) {items : List A} {encoded chunks : List (List B)}
    (each : List.Forall₂ IsFrame items encoded) (stream : chunks.flatten = encoded.flatten) :
    decode.feedAll chunks = ⟨items, [], none⟩ :=
  frames.feed_stream each .empty stream []

end FrameDecoder
end Lib
