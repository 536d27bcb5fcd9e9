import ErgoNode.Lib.BigEndian
import ErgoNode.Lib.Reader

/-!
# Layouts

What a reader expects that never looks for the end of its input: fields of so many bytes, fields that a flag says
are there, and elements behind their number. It panics exactly where the input ends too early.
-/

namespace Lib

inductive Field where
  | fixed (size : Nat)
  | optional (size : Nat)
  | counted (digits size : Nat)

abbrev Layout := List Field

def Field.length (bytes : List UInt8) : Field → Nat
  | fixed size => size
  | optional size => if bytes.head? = some 1 then size + 1 else 1
  | counted digits size => digits + BigEndian.read (bytes.take digits) * size

def Field.skip (bytes : List UInt8) (field : Field) : Option (List UInt8) :=
  if field.length bytes ≤ bytes.length then some (bytes.drop (field.length bytes)) else none

namespace Layout
variable {first second : Layout} {bytes : List UInt8}

def rest : Layout → List UInt8 → Option (List UInt8)
  | [], bytes => some bytes
  | field :: more, bytes => (field.skip bytes).bind (rest more)

def Whole (layout : Layout) (bytes : List UInt8) : Prop := (layout.rest bytes).isSome = true

instance (layout : Layout) (bytes : List UInt8) : Decidable (layout.Whole bytes) :=
  inferInstanceAs (Decidable (_ = true))

@[simp] theorem rest_nil (bytes : List UInt8) : rest [] bytes = some bytes := rfl

theorem rest_cons (field : Field) (more : Layout) (bytes : List UInt8) :
    rest (field :: more) bytes = (field.skip bytes).bind (rest more) := rfl

theorem rest_append : rest (first ++ second) bytes = (first.rest bytes).bind second.rest := by
  induction first generalizing bytes with
  | nil => rfl
  | cons field more ih =>
      rw [List.cons_append, rest_cons, rest_cons, Option.bind_assoc]
      exact congrArg _ (funext fun _ => ih)

theorem rest_fixed {size : Nat} {more : Layout} : rest (.fixed size :: more) bytes =
    if size ≤ bytes.length then more.rest (bytes.drop size) else none := by
  rw [rest_cons, Field.skip, Field.length]
  split <;> rfl

theorem rest_fixed_fixed {size other : Nat} :
    rest [.fixed size, .fixed other] bytes = rest [.fixed (size + other)] bytes := by
  simp only [rest_fixed, rest_nil, List.length_drop, List.drop_drop]
  by_cases enough : size + other ≤ bytes.length
  · rw [if_pos enough, if_pos (by omega), if_pos (by omega)]
  · rw [if_neg enough]
    split
    · rw [if_neg (by omega)]
    · rfl

theorem rest_optional {size : Nat} {flag : UInt8} : rest [.optional size] (flag :: bytes) =
    if flag = 1 then rest [.fixed size] bytes else some bytes := by
  by_cases there : flag = 1
  · simp [rest_cons, Field.skip, Field.length, there]
    rfl
  · simp [rest_cons, Field.skip, Field.length, there]

theorem rest_counted {digits size : Nat} {more : Layout} : rest (.counted digits size :: more) bytes =
    if digits ≤ bytes.length then rest (.fixed (BigEndian.read (bytes.take digits) * size) :: more) (bytes.drop digits)
    else none := by
  rw [rest_cons, Field.skip, Field.length]
  by_cases enough : digits ≤ bytes.length
  · rw [if_pos enough, rest_fixed, List.length_drop, List.drop_drop]
    by_cases whole : digits + BigEndian.read (bytes.take digits) * size ≤ bytes.length
    · rw [if_pos whole, if_pos (by omega)]
      rfl
    · rw [if_neg whole, if_neg (by omega)]
      rfl
  · rw [if_neg enough, if_neg (by omega)]
    rfl

end Layout

namespace Read
variable {ε α β : Type} {x : Read ε α} {f : α → Read ε β} {a : α} {c d : Cursor} {first second : Layout}

theorem result_bind_of_stop {stop : Stop ε} (stops : (x.exec c).result = .error stop) :
    ((x >>= f).exec c).result = .error stop := by
  rw [exec_bind]
  rcases ran : x.exec c with ⟨result, rooms⟩
  rw [ran] at stops
  cases stops
  rfl

theorem Gives.result_bind (given : x.Gives c a d) : ((x >>= f).exec c).result = ((f a).exec d).result := by
  unfold Gives at given
  rw [exec_bind]
  rcases ran : x.exec c with ⟨result, rooms⟩
  rw [ran] at given
  cases given
  rfl

/-- The program goes on behind the fields, and panics where they are not there. -/
structure Follows (x : Read ε α) (layout : Layout) : Prop where
  whole : ∀ {c rest}, layout.rest c.rest = some rest → ∃ a pos, x.Gives c a ⟨pos, rest⟩
  broken : ∀ {c}, layout.rest c.rest = none → (x.exec c).result = .error .panic

theorem Follows.ne_panic_iff (follows : x.Follows first) : (x.exec c).result ≠ .error .panic ↔ first.Whole c.rest := by
  unfold Layout.Whole
  cases left : first.rest c.rest with
  | none => simp [follows.broken left]
  | some rest =>
      obtain ⟨a, pos, given⟩ := follows.whole left
      unfold Gives at given
      simp [given]

theorem Follows.congr (follows : x.Follows first) (same : ∀ bytes, first.rest bytes = second.rest bytes) :
    x.Follows second where
  whole left := follows.whole ((same _).trans left)
  broken left := follows.broken ((same _).trans left)

theorem follows_pure : (pure a : Read ε α).Follows [] where
  whole left := by
    cases left
    exact ⟨a, _, gives_pure.mpr ⟨rfl, rfl⟩⟩
  broken left := nomatch left

theorem Follows.bind (follows : x.Follows first) (later : ∀ a, (f a).Follows second) :
    (x >>= f).Follows (first ++ second) where
  whole left := by
    rw [Layout.rest_append, Option.bind_eq_some_iff] at left
    obtain ⟨middle, before, behind⟩ := left
    obtain ⟨a, pos, given⟩ := follows.whole before
    obtain ⟨b, stop, last⟩ := (later a).whole (c := ⟨pos, middle⟩) behind
    exact ⟨b, stop, gives_bind.mpr ⟨a, _, given, last⟩⟩
  broken {c} left := by
    rw [Layout.rest_append] at left
    cases before : first.rest c.rest with
    | none => exact result_bind_of_stop (follows.broken before)
    | some middle =>
        rw [before, Option.bind_some] at left
        obtain ⟨a, pos, given⟩ := follows.whole before
        rw [given.result_bind]
        exact (later a).broken left

theorem Follows.map {g : α → β} (follows : x.Follows first) : (g <$> x).Follows first := by
  rw [map_eq_bind, ← List.append_nil first]
  exact follows.bind fun _ => follows_pure

theorem follows_take (n : Nat) : (take n : Read ε _).Follows [.fixed n] where
  whole {c rest} left := by
    rw [Layout.rest_fixed] at left
    split at left
    · next enough =>
        cases left
        exact ⟨_, c.pos + n, gives_take.mpr ⟨enough, rfl, rfl⟩⟩
    · cases left
  broken {c} left := by
    rw [Layout.rest_fixed] at left
    split at left
    · cases left
    · next short =>
        unfold exec take
        rw [if_neg short]

theorem follows_byte : (byte : Read ε _).Follows [.fixed 1] where
  whole {c rest} left := by
    obtain ⟨pos, bytes⟩ := c
    cases bytes with
    | nil => simp [Layout.rest_fixed] at left
    | cons first bytes =>
        obtain rfl : bytes = rest := by simpa [Layout.rest_fixed] using left
        exact ⟨first, pos + 1, gives_byte.mpr ⟨rfl, rfl⟩⟩
  broken {c} left := by
    obtain ⟨pos, bytes⟩ := c
    cases bytes with
    | nil => rfl
    | cons first bytes => simp [Layout.rest_fixed] at left

theorem follows_withCapacity {most count size : Nat} (fits : count * size ≤ most) :
    (withCapacity most count size : Read ε Unit).Follows [] where
  whole left := by
    cases left
    exact ⟨(), _, gives_withCapacity.mpr ⟨fits, rfl⟩⟩
  broken left := nomatch left

theorem follows_repeated {size : Nat} (each : x.Follows [.fixed size]) (count : Nat) :
    (repeated x count).Follows [.fixed (count * size)] := by
  induction count with
  | zero =>
      rw [Nat.zero_mul]
      exact follows_pure.congr fun bytes => by simp [Layout.rest_fixed]
  | succ count ih =>
      rw [repeated_succ, Nat.succ_mul, Nat.add_comm]
      apply (each.bind fun a => ih.bind fun rest => follows_pure).congr
      intro bytes
      exact Layout.rest_fixed_fixed

theorem follows_optional {size : Nat} (value : x.Follows [.fixed size]) :
    (byte >>= fun flag => if flag = 1 then some <$> x else pure none).Follows [.optional size] where
  whole {c rest} left := by
    obtain ⟨pos, bytes⟩ := c
    cases bytes with
    | nil =>
        rw [Layout.rest_cons, Field.skip, Field.length] at left
        cases left
    | cons flag bytes =>
        rw [Layout.rest_optional] at left
        have flagged : (byte : Read ε _).Gives ⟨pos, flag :: bytes⟩ flag ⟨pos + 1, bytes⟩ := gives_byte.mpr ⟨rfl, rfl⟩
        split at left
        · next there =>
            obtain ⟨a, stop, given⟩ := value.map (g := some) |>.whole (c := ⟨pos + 1, bytes⟩) left
            exact ⟨a, stop, gives_bind.mpr ⟨flag, _, flagged, by rwa [if_pos there]⟩⟩
        · next missing =>
            cases left
            refine ⟨none, pos + 1, gives_bind.mpr ⟨flag, _, flagged, ?_⟩⟩
            rw [if_neg missing]
            exact gives_pure.mpr ⟨rfl, rfl⟩
  broken {c} left := by
    obtain ⟨pos, bytes⟩ := c
    cases bytes with
    | nil => rfl
    | cons flag bytes =>
        rw [Layout.rest_optional] at left
        have flagged : (byte : Read ε _).Gives ⟨pos, flag :: bytes⟩ flag ⟨pos + 1, bytes⟩ := gives_byte.mpr ⟨rfl, rfl⟩
        rw [flagged.result_bind]
        split at left
        · next there =>
            rw [if_pos there]
            exact (value.map (g := some)).broken left
        · cases left

/-- The program reads a number of so many digits. -/
structure Counts (x : Read ε α) (digits : Nat) (number : α → Nat) : Prop where
  whole : ∀ {c}, digits ≤ c.rest.length →
    ∃ a, x.Gives c a (c.skip digits) ∧ number a = BigEndian.read (c.rest.take digits)
  broken : ∀ {c}, ¬ digits ≤ c.rest.length → (x.exec c).result = .error .panic

theorem counts_take {digits : Nat} {number : α → Nat} {value : List UInt8 → α}
    (same : ∀ bytes, bytes.length = digits → number (value bytes) = BigEndian.read bytes) :
    (value <$> (take digits : Read ε _)).Counts digits number where
  whole {c} enough := by
    refine ⟨_, gives_map.mpr ⟨_, gives_take.mpr ⟨enough, rfl, rfl⟩, rfl⟩, ?_⟩
    exact same _ (List.length_take_of_le enough)
  broken {c} short := by
    apply (follows_take digits).map.broken
    rw [Layout.rest_fixed, if_neg short]

theorem Counts.bind {digits size : Nat} {number : α → Nat} {layout : Layout} (counts : x.Counts digits number)
    (later : ∀ a, (f a).Follows (.fixed (number a * size) :: layout)) :
    (x >>= f).Follows (.counted digits size :: layout) where
  whole {c rest} left := by
    rw [Layout.rest_counted] at left
    split at left
    · next enough =>
        obtain ⟨a, given, same⟩ := counts.whole enough
        rw [← same] at left
        obtain ⟨b, pos, last⟩ := (later a).whole (c := c.skip digits) left
        exact ⟨b, pos, gives_bind.mpr ⟨a, _, given, last⟩⟩
    · cases left
  broken {c} left := by
    rw [Layout.rest_counted] at left
    split at left
    · next enough =>
        obtain ⟨a, given, same⟩ := counts.whole enough
        rw [← same] at left
        rw [given.result_bind]
        exact (later a).broken left
    · next short => exact result_bind_of_stop (counts.broken short)

end Read
end Lib
