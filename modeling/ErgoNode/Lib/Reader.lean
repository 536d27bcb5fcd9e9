import ErgoNode.Lib.BigEndian
import Mathlib.Data.List.Forall2

/-!
# Reading byte strings

Programs that read a byte string from the front. They end with a value, with an error they raise, or
with a panic where they read past the end. `Safe` says that a program does not panic and that each
room it asks for is justified, `Reads` that it takes some bytes for a value.
-/

namespace Lib

/-- The bytes that are left from position `pos` on. -/
structure Cursor where
  pos : Nat
  rest : List UInt8

def Cursor.skip (c : Cursor) (n : Nat) : Cursor := ⟨c.pos + n, c.rest.drop n⟩

inductive Stop (ε : Type) where
  | error (e : ε)
  | panic

/-- Room asked for so many elements while so many bytes were left. -/
structure Room where
  count : Nat
  remaining : Nat
  deriving DecidableEq

structure Outcome (ε α : Type) where
  result : Except (Stop ε) (α × Cursor)
  rooms : List Room

def Read (ε α : Type) := Cursor → Outcome ε α

namespace Read
variable {ε α β : Type}

def exec (x : Read ε α) (c : Cursor) : Outcome ε α := x c

instance : Monad (Read ε) where
  pure a := fun c => ⟨.ok (a, c), []⟩
  bind x f := fun c =>
    match x.exec c with
    | ⟨.ok (a, d), rooms⟩ => ⟨((f a).exec d).result, rooms ++ ((f a).exec d).rooms⟩
    | ⟨.error stop, rooms⟩ => ⟨.error stop, rooms⟩

def fail (e : ε) : Read ε α := fun _ => ⟨.error (.error e), []⟩

def ofExcept : Except ε α → Read ε α
  | .ok a => pure a
  | .error e => fail e

def look : Read ε (List UInt8) := fun c => ⟨.ok (c.rest, c), []⟩

def take (n : Nat) : Read ε (List UInt8) := fun c =>
  if n ≤ c.rest.length then ⟨.ok (c.rest.take n, c.skip n), []⟩ else ⟨.error .panic, []⟩

def advance (n : Nat) : Read ε Unit := do
  let _ ← take n
  return

def byte : Read ε UInt8 := fun c =>
  match c.rest with
  | [] => ⟨.error .panic, []⟩
  | first :: _ => ⟨.ok (first, c.skip 1), []⟩

/-- Room for `count` elements of `size` bytes each; more than `most` bytes are refused with a panic. -/
def withCapacity (most count size : Nat) : Read ε Unit := fun c =>
  if count * size ≤ most then ⟨.ok ((), c), [⟨count, c.rest.length⟩]⟩ else ⟨.error .panic, []⟩

/-- The next `len` bytes, or nothing where they end past the input. Positions wrap around at `word`. -/
def span (word len : Nat) : Read ε (Option (List UInt8)) := fun c =>
  let stop := (c.pos + len) % word
  if stop > c.pos + c.rest.length then ⟨.ok (none, c), []⟩
  else if stop < c.pos then ⟨.error .panic, []⟩
  else (some <$> take (stop - c.pos)).exec c

def collect (step : Read ε (Option α)) : Nat → Read ε (List α)
  | 0 => pure []
  | more + 1 => do
      match ← step with
      | none => return []
      | some a => return a :: (← collect step more)

def repeated (step : Read ε α) (count : Nat) : Read ε (List α) := collect (some <$> step) count

@[simp] theorem exec_pure (a : α) (c : Cursor) : (pure a : Read ε α).exec c = ⟨.ok (a, c), []⟩ := rfl

@[simp] theorem exec_fail (e : ε) (c : Cursor) : (fail e : Read ε α).exec c = ⟨.error (.error e), []⟩ := rfl

@[simp] theorem exec_look (c : Cursor) : (look : Read ε _).exec c = ⟨.ok (c.rest, c), []⟩ := rfl

@[simp] theorem exec_ofExcept (a : α) (c : Cursor) :
    (ofExcept (.ok a) : Read ε α).exec c = ⟨.ok (a, c), []⟩ := rfl

theorem exec_bind (x : Read ε α) (f : α → Read ε β) (c : Cursor) :
    (x >>= f).exec c = match x.exec c with
      | ⟨.ok (a, d), rooms⟩ => ⟨((f a).exec d).result, rooms ++ ((f a).exec d).rooms⟩
      | ⟨.error stop, rooms⟩ => ⟨.error stop, rooms⟩ := rfl

theorem exec_bind_of_ok {x : Read ε α} {f : α → Read ε β} {a : α} {c d : Cursor}
    (given : x.exec c = ⟨.ok (a, d), []⟩) : (x >>= f).exec c = (f a).exec d := by
  rw [exec_bind, given]
  rfl

theorem exec_bind_of_error {x : Read ε α} {f : α → Read ε β} {stop : Stop ε} {c : Cursor} {rooms : List Room}
    (failed : x.exec c = ⟨.error stop, rooms⟩) : (x >>= f).exec c = ⟨.error stop, rooms⟩ := by
  rw [exec_bind, failed]

theorem exec_take {n : Nat} {c : Cursor} (enough : n ≤ c.rest.length) :
    (take n : Read ε _).exec c = ⟨.ok (c.rest.take n, c.skip n), []⟩ := if_pos enough

theorem exec_advance {n : Nat} {c : Cursor} (enough : n ≤ c.rest.length) :
    (advance n : Read ε Unit).exec c = ⟨.ok ((), c.skip n), []⟩ :=
  exec_bind_of_ok (exec_take enough)

theorem exec_byte {first : UInt8} {c : Cursor} (there : c.rest.head? = some first) :
    (byte : Read ε _).exec c = ⟨.ok (first, c.skip 1), []⟩ := by
  obtain ⟨pos, rest⟩ := c
  cases rest with
  | nil => cases there
  | cons head rest =>
      cases there
      rfl

theorem map_eq_bind (g : α → β) (x : Read ε α) : g <$> x = x >>= fun a => pure (g a) := rfl

instance : LawfulMonad (Read ε) := by
  refine LawfulMonad.mk' _ ?_ ?_ ?_
  · intro α x
    funext c
    change (x >>= pure).exec c = x.exec c
    rw [exec_bind]
    rcases x.exec c with ⟨stop | ⟨a, d⟩, rooms⟩
    · rfl
    · simp
  · intro α β a f
    funext c
    exact exec_bind_of_ok (exec_pure a c)
  · intro α β γ x f g
    funext c
    change (x >>= f >>= g).exec c = (x >>= fun a => f a >>= g).exec c
    rw [exec_bind, exec_bind, exec_bind]
    rcases x.exec c with ⟨stop | ⟨a, d⟩, rooms⟩
    · rfl
    · simp only [exec_bind]
      rcases (f a).exec d with ⟨stop | ⟨b, e⟩, later⟩
      · rfl
      · simp

theorem repeated_succ (step : Read ε α) (count : Nat) :
    repeated step (count + 1) = step >>= fun a => (a :: ·) <$> repeated step count := by
  rw [repeated, collect, map_eq_bind, bind_assoc]
  rfl

/-! ### What a program gives -/

def Gives (x : Read ε α) (c : Cursor) (a : α) (d : Cursor) : Prop := (x.exec c).result = .ok (a, d)

variable {x : Read ε α} {f : α → Read ε β} {a : α} {b : β} {c d e : Cursor}

@[simp] theorem gives_pure {given : α} : (pure given : Read ε α).Gives c a d ↔ given = a ∧ c = d := by
  simp [Gives]

@[simp] theorem gives_fail (error : ε) : ¬ (fail error : Read ε α).Gives c a d := by
  simp [Gives]

@[simp] theorem gives_ofExcept {r : Except ε α} : (ofExcept r).Gives c a d ↔ r = .ok a ∧ c = d := by
  cases r <;> simp [ofExcept]

@[simp] theorem gives_look {bytes : List UInt8} :
    (look : Read ε _).Gives c bytes d ↔ c.rest = bytes ∧ c = d := by
  simp [Gives]

@[simp] theorem gives_bind : (x >>= f).Gives c b e ↔ ∃ a d, x.Gives c a d ∧ (f a).Gives d b e := by
  unfold Gives
  rw [exec_bind]
  rcases x.exec c with ⟨stop | ⟨a, d⟩, rooms⟩
  · simp
  · constructor
    · intro done
      exact ⟨a, d, rfl, done⟩
    · rintro ⟨a', d', same, done⟩
      cases same
      exact done

@[simp] theorem gives_map {g : α → β} : (g <$> x).Gives c b e ↔ ∃ a, x.Gives c a e ∧ g a = b := by
  rw [map_eq_bind, gives_bind]
  constructor
  · rintro ⟨a, d, given, last⟩
    obtain ⟨same, rfl⟩ := gives_pure.mp last
    exact ⟨a, given, same⟩
  · rintro ⟨a, given, same⟩
    exact ⟨a, e, given, gives_pure.mpr ⟨same, rfl⟩⟩

@[simp] theorem gives_ite {p : Prop} [Decidable p] {y : Read ε α} :
    (if p then x else y).Gives c a d ↔ if p then x.Gives c a d else y.Gives c a d := by
  split <;> rfl

@[simp] theorem gives_take {n : Nat} {bytes : List UInt8} :
    (take n : Read ε _).Gives c bytes d ↔ n ≤ c.rest.length ∧ c.rest.take n = bytes ∧ c.skip n = d := by
  unfold Gives exec take
  split
  · next enough => simp [enough]
  · next short => simp [short]

@[simp] theorem gives_advance {n : Nat} {u : Unit} :
    (advance n : Read ε Unit).Gives c u d ↔ n ≤ c.rest.length ∧ c.skip n = d := by
  rw [advance, gives_bind]
  constructor
  · rintro ⟨bytes, d', taken, last⟩
    obtain ⟨enough, -, rfl⟩ := gives_take.mp taken
    exact ⟨enough, (gives_pure.mp last).2⟩
  · rintro ⟨enough, rfl⟩
    exact ⟨_, _, gives_take.mpr ⟨enough, rfl, rfl⟩, gives_pure.mpr ⟨rfl, rfl⟩⟩

@[simp] theorem gives_byte {first : UInt8} :
    (byte : Read ε UInt8).Gives c first d ↔ c.rest.head? = some first ∧ c.skip 1 = d := by
  obtain ⟨pos, rest⟩ := c
  cases rest <;> simp [Gives, exec, byte]

@[simp] theorem gives_withCapacity {most count size : Nat} {u : Unit} :
    (withCapacity most count size : Read ε Unit).Gives c u d ↔ count * size ≤ most ∧ c = d := by
  unfold Gives exec withCapacity
  split
  · next fits => simp [fits]
  · next large => simp [large]

theorem Gives.unique {a' : α} {d' : Cursor} (first : x.Gives c a d) (second : x.Gives c a' d') : a = a' ∧ d = d' := by
  have same := first.symm.trans second
  rwa [Except.ok.injEq, Prod.mk.injEq] at same

theorem length_collect_le {step : Read ε (Option α)} {count : Nat} {items : List α}
    (given : (collect step count).Gives c items d) : items.length ≤ count := by
  induction count generalizing c d items with
  | zero =>
      obtain ⟨rfl, -⟩ := gives_pure.mp given
      exact Nat.le_refl _
  | succ more ih =>
      obtain ⟨found, e, -, rest⟩ := gives_bind.mp given
      cases found with
      | none =>
          obtain ⟨rfl, -⟩ := gives_pure.mp rest
          exact Nat.zero_le _
      | some a =>
          obtain ⟨others, f, collected, last⟩ := gives_bind.mp rest
          obtain ⟨rfl, -⟩ := gives_pure.mp last
          exact Nat.succ_le_succ (ih collected)

/-! ### Safety -/

/-- No panic, and each room that is asked for is justified. -/
def Safe (justified : Room → Prop) (x : Read ε α) (c : Cursor) : Prop :=
  (x.exec c).result ≠ .error .panic ∧ ∀ room ∈ (x.exec c).rooms, justified room

variable {justified : Room → Prop}

@[simp] theorem safe_pure : (pure a : Read ε α).Safe justified c := by
  simp [Safe]

@[simp] theorem safe_fail (error : ε) : (fail error : Read ε α).Safe justified c := by
  simp [Safe]

@[simp] theorem safe_ofExcept (r : Except ε α) : (ofExcept r).Safe justified c := by
  cases r
  · exact safe_fail _
  · exact safe_pure

@[simp] theorem safe_look : (look : Read ε _).Safe justified c := by
  simp [Safe]

@[simp] theorem safe_bind : (x >>= f).Safe justified c ↔
    x.Safe justified c ∧ ∀ a d, x.Gives c a d → (f a).Safe justified d := by
  unfold Safe Gives
  rw [exec_bind]
  rcases x.exec c with ⟨stop | ⟨a, d⟩, rooms⟩
  · simp
  · simp only [List.forall_mem_append, Except.ok.injEq, Prod.mk.injEq, and_imp]
    constructor
    · rintro ⟨stops, before, after⟩
      refine ⟨⟨nofun, before⟩, ?_⟩
      rintro a' d' rfl rfl
      exact ⟨stops, after⟩
    · rintro ⟨⟨-, before⟩, next⟩
      exact ⟨(next a d rfl rfl).1, before, (next a d rfl rfl).2⟩

@[simp] theorem safe_map {g : α → β} : (g <$> x).Safe justified c ↔ x.Safe justified c := by
  rw [map_eq_bind, safe_bind]
  exact and_iff_left fun _ _ _ => safe_pure

@[simp] theorem safe_ite {p : Prop} [Decidable p] {y : Read ε α} :
    (if p then x else y).Safe justified c ↔
      (p → x.Safe justified c) ∧ (¬ p → y.Safe justified c) := by
  split
  · next holds => simp [holds]
  · next fails => simp [fails]

@[simp] theorem safe_take {n : Nat} : (take n : Read ε _).Safe justified c ↔ n ≤ c.rest.length := by
  unfold Safe exec take
  split
  · next enough => simp [enough]
  · next short => simp [short]

@[simp] theorem safe_advance {n : Nat} :
    (advance n : Read ε Unit).Safe justified c ↔ n ≤ c.rest.length := by
  rw [advance, safe_bind, safe_take]
  exact and_iff_left fun _ _ _ => safe_pure

@[simp] theorem safe_byte : (byte : Read ε UInt8).Safe justified c ↔ c.rest ≠ [] := by
  obtain ⟨pos, rest⟩ := c
  cases rest <;> simp [Safe, exec, byte]

@[simp] theorem safe_withCapacity {most count size : Nat} :
    (withCapacity most count size : Read ε Unit).Safe justified c ↔
      count * size ≤ most ∧ justified ⟨count, c.rest.length⟩ := by
  unfold Safe exec withCapacity
  split
  · next fits => simp [fits]
  · next large => simp [large]

theorem safe_congr {y : Read ε α} (same : x.exec c = y.exec d) :
    x.Safe justified c ↔ y.Safe justified d := by
  unfold Safe
  rw [same]

theorem safe_collect {step : Read ε (Option α)} (each : ∀ c, step.Safe justified c) (count : Nat) :
    (collect step count).Safe justified c := by
  induction count generalizing c with
  | zero => exact safe_pure
  | succ more ih =>
      rw [collect, safe_bind]
      refine ⟨each c, fun found d _ => ?_⟩
      cases found with
      | none => exact safe_pure
      | some a => exact safe_bind.mpr ⟨ih, fun _ _ _ => safe_pure⟩

theorem safe_repeated {step : Read ε α} (each : ∀ c, step.Safe justified c) (count : Nat) :
    (repeated step count).Safe justified c :=
  safe_collect (fun c => safe_map.mpr (each c)) count

theorem span_wraps {word len : Nat} (position : len < word) (wraps : word ≤ c.pos + len) :
    (span word len : Read ε _).exec c = ⟨.error .panic, []⟩ := by
  have short : (c.pos + len) % word < c.pos := by
    by_cases far : word ≤ c.pos
    · exact Nat.lt_of_lt_of_le (Nat.mod_lt _ (by omega)) far
    · rw [Nat.mod_eq_sub_mod wraps, Nat.mod_eq_of_lt (by omega)]
      omega
  rw [exec, span]
  rw [if_neg (by omega), if_pos short]

theorem span_found {word len : Nat} (fits : c.pos + len < word) (enough : len ≤ c.rest.length) :
    (span word len : Read ε _).exec c = ⟨.ok (some (c.rest.take len), c.skip len), []⟩ := by
  rw [exec, span, Nat.mod_eq_of_lt fits, Nat.add_sub_cancel_left, if_neg (by omega), if_neg (by omega)]
  exact exec_bind_of_ok (exec_take enough)

theorem span_missed {word len : Nat} (fits : c.pos + len < word) (short : ¬ len ≤ c.rest.length) :
    (span word len : Read ε _).exec c = ⟨.ok (none, c), []⟩ := by
  rw [exec, span, Nat.mod_eq_of_lt fits, if_pos (by omega)]

@[simp] theorem safe_span {word len : Nat} (position : len < word) :
    (span word len : Read ε _).Safe justified c ↔ c.pos + len < word := by
  by_cases fits : c.pos + len < word
  · unfold Safe
    by_cases enough : len ≤ c.rest.length
    · simp [span_found fits enough, fits]
    · simp [span_missed fits enough, fits]
  · unfold Safe
    rw [span_wraps position (Nat.le_of_not_lt fits)]
    simp [fits]

theorem gives_span {word len : Nat} {found : Option (List UInt8)} (fits : c.pos + len < word) :
    (span word len : Read ε _).Gives c found d ↔
      if len ≤ c.rest.length then some (c.rest.take len) = found ∧ c.skip len = d
      else none = found ∧ c = d := by
  unfold Gives
  split
  · next enough => simp [span_found fits enough]
  · next short => simp [span_missed fits short]

/-! ### Reading what was written -/

/-- Program `x` takes `bytes` for `a`, whatever follows them, as long as positions stay below `bound`. -/
def Reads (bound : Nat) (x : Read ε α) (bytes : List UInt8) (a : α) : Prop :=
  ∀ pos rest, pos + (bytes.length + rest.length) < bound →
    x.Gives ⟨pos, bytes ++ rest⟩ a ⟨pos + bytes.length, rest⟩

variable {bound : Nat} {bytes more : List UInt8}

theorem reads_pure : (pure a : Read ε α).Reads bound [] a :=
  fun _ _ _ => gives_pure.mpr ⟨rfl, rfl⟩

theorem reads_of_small (reads : bytes.length < bound → x.Reads bound bytes a) : x.Reads bound bytes a :=
  fun pos rest below => reads (by omega) pos rest below

theorem reads_look {g : List UInt8 → Read ε α} (reads : ∀ rest, (g (bytes ++ rest)).Reads bound bytes a) :
    (look >>= g).Reads bound bytes a := by
  intro pos rest below
  exact gives_bind.mpr ⟨bytes ++ rest, _, gives_look.mpr ⟨rfl, rfl⟩, reads rest pos rest below⟩

theorem reads_unless_end {done : Read ε α} (nonempty : bytes ≠ []) (reads : x.Reads bound bytes a) :
    (look >>= fun rest => if rest = [] then done else x).Reads bound bytes a := by
  refine reads_look fun rest => ?_
  rwa [if_neg fun empty => nonempty (List.append_eq_nil_iff.mp empty).1]

theorem Reads.bind (first : x.Reads bound bytes a) (second : (f a).Reads bound more b) :
    (x >>= f).Reads bound (bytes ++ more) b := by
  intro pos rest below
  rw [List.length_append] at below ⊢
  rw [List.append_assoc, ← Nat.add_assoc]
  exact gives_bind.mpr ⟨a, _, first pos (more ++ rest) (by rw [List.length_append]; omega),
    second _ rest (by omega)⟩

theorem Reads.last (first : x.Reads bound bytes a) (second : (f a).Reads bound [] b) :
    (x >>= f).Reads bound bytes b := by
  have both := first.bind second
  rwa [List.append_nil] at both

theorem Reads.next {pos : Nat} {rest : List UInt8} (reads : x.Reads bound bytes a)
    (below : pos + (bytes.length + rest.length) < bound) (given : (x >>= f).Gives ⟨pos, bytes ++ rest⟩ b d) :
    (f a).Gives ⟨pos + bytes.length, rest⟩ b d := by
  obtain ⟨a', e, first, second⟩ := gives_bind.mp given
  obtain ⟨rfl, rfl⟩ := first.unique (reads pos rest below)
  exact second

theorem Reads.map {g : α → β} (given : x.Reads bound bytes a) : (g <$> x).Reads bound bytes (g a) :=
  fun pos rest below => gives_map.mpr ⟨a, given pos rest below, rfl⟩

theorem reads_take {n : Nat} (size : bytes.length = n) : (take n : Read ε _).Reads bound bytes bytes := by
  subst size
  intro pos rest _
  rw [gives_take]
  exact ⟨by simp, by simp, by simp [Cursor.skip]⟩

theorem reads_advance {n : Nat} (size : bytes.length = n) : (advance n : Read ε Unit).Reads bound bytes () :=
  (reads_take size).last reads_pure

theorem reads_byte (first : UInt8) : (byte : Read ε UInt8).Reads bound [first] first :=
  fun _ _ _ => gives_byte.mpr ⟨rfl, rfl⟩

theorem reads_withCapacity {most count size : Nat} (fits : count * size ≤ most) :
    (withCapacity most count size : Read ε Unit).Reads bound [] () :=
  fun _ _ _ => gives_withCapacity.mpr ⟨fits, rfl⟩

theorem reads_reserving {most count size : Nat} {g : Unit → Read ε α} (fits : count * size ≤ most)
    (reads : (g ()).Reads bound bytes a) : (withCapacity most count size >>= g).Reads bound bytes a :=
  (reads_withCapacity fits).bind (f := g) reads

theorem reads_number (size n : Nat) (f : Nat → β) :
    ((fun bytes => f (BigEndian.read bytes)) <$> take size : Read ε β).Reads bound (BigEndian.write size n)
      (f (n % 256 ^ size)) := by
  rw [← BigEndian.read_write]
  exact (reads_take (BigEndian.length_write size n)).map

theorem Reads.whole (given : x.Reads bound bytes a) (below : bytes.length < bound) :
    (x.exec ⟨0, bytes⟩).result = .ok (a, ⟨bytes.length, []⟩) := by
  have all := given 0 [] (by simpa using below)
  rwa [List.append_nil, Nat.zero_add] at all

theorem reads_span {word len : Nat} (size : bytes.length = len) (within : bound ≤ word) :
    (span word len : Read ε _).Reads bound bytes (some bytes) := by
  subst size
  intro pos rest below
  have fits : pos + bytes.length < word := by omega
  rw [gives_span fits, if_pos (by simp)]
  exact ⟨by simp, by simp [Cursor.skip]⟩

theorem reads_collect_map {write : β → List UInt8} {value : β → α} {step : Read ε (Option α)} {items : List β}
    (each : ∀ b ∈ items, step.Reads bound (write b) (some (value b))) :
    (collect step items.length).Reads bound (items.flatMap write) (items.map value) := by
  induction items with
  | nil => exact reads_pure
  | cons b items ih =>
      rw [List.flatMap_cons, List.length_cons, List.map_cons, collect]
      refine (each b List.mem_cons_self).bind ?_
      exact (ih fun b member => each b (List.mem_cons_of_mem _ member)).last reads_pure

theorem reads_collect {write : α → List UInt8} {step : Read ε (Option α)} {items : List α}
    (each : ∀ a ∈ items, step.Reads bound (write a) (some a)) :
    (collect step items.length).Reads bound (items.flatMap write) items := by
  have collected := reads_collect_map each
  rwa [List.map_id'] at collected

theorem reads_repeated {write : α → List UInt8} {step : Read ε α} {items : List α}
    (each : ∀ a ∈ items, step.Reads bound (write a) a) :
    (repeated step items.length).Reads bound (items.flatMap write) items :=
  reads_collect fun a member => (each a member).map

theorem reads_repeated_pieces {γ : Type} {write : γ → List UInt8} {step : Read ε α} {items : List α} {pieces : List γ}
    (each : List.Forall₂ (fun a piece => step.Reads bound (write piece) a) items pieces) :
    (repeated step items.length).Reads bound (pieces.flatMap write) items := by
  induction each with
  | nil => exact reads_pure
  | cons first rest ih =>
      rw [List.length_cons, repeated_succ, List.flatMap_cons]
      exact first.bind ih.map

/-! ### Reading what is cut short -/

/-- More bytes at the end change nothing about a value that is given. -/
def Local (x : Read ε α) : Prop :=
  ∀ ⦃c a d⦄ (more : List UInt8), x.Gives c a d → x.Gives ⟨c.pos, c.rest ++ more⟩ a ⟨d.pos, d.rest ++ more⟩

theorem skip_append {n : Nat} (enough : n ≤ c.rest.length) (more : List UInt8) :
    (Cursor.mk c.pos (c.rest ++ more)).skip n = ⟨(c.skip n).pos, (c.skip n).rest ++ more⟩ := by
  simp only [Cursor.skip, List.drop_append_of_le_length enough]

theorem local_pure : (pure a : Read ε α).Local := by
  intro c b d more given
  obtain ⟨rfl, rfl⟩ := gives_pure.mp given
  exact gives_pure.mpr ⟨rfl, rfl⟩

theorem local_fail (error : ε) : (fail error : Read ε α).Local :=
  fun _ _ _ _ given => absurd given (gives_fail error)

theorem Local.bind (first : x.Local) (second : ∀ a, (f a).Local) : (x >>= f).Local := by
  intro c b e more given
  obtain ⟨a, d, before, after⟩ := gives_bind.mp given
  exact gives_bind.mpr ⟨a, _, first more before, second a more after⟩

theorem local_ite {p : Prop} [Decidable p] {y : Read ε α} (yes : x.Local) (no : y.Local) :
    (if p then x else y).Local := by
  split
  · exact yes
  · exact no

theorem local_take (n : Nat) : (take n : Read ε _).Local := by
  intro c bytes d more given
  obtain ⟨enough, rfl, rfl⟩ := gives_take.mp given
  refine gives_take.mpr ⟨?_, List.take_append_of_le_length enough, skip_append enough more⟩
  exact Nat.le_trans enough (by simp)

theorem local_byte : (byte : Read ε UInt8).Local := by
  intro c first d more given
  obtain ⟨pos, rest⟩ := c
  obtain ⟨head, rfl⟩ := gives_byte.mp given
  cases rest with
  | nil => cases head
  | cons _ rest =>
      cases head
      exact gives_byte.mpr ⟨rfl, rfl⟩

theorem Gives.span_append {word len : Nat} (given : (span word len : Read ε _).Gives c (some bytes) d)
    (more : List UInt8) :
    (span word len : Read ε _).Gives ⟨c.pos, c.rest ++ more⟩ (some bytes) ⟨d.pos, d.rest ++ more⟩ := by
  unfold Gives exec span at given ⊢
  simp only [List.length_append] at given ⊢
  split at given
  · cases given
  · next within =>
      split at given
      · cases given
      · next ordered =>
          rw [if_neg (by omega), if_neg ordered]
          obtain ⟨taken, found, same⟩ := gives_map.mp given
          exact gives_map.mpr ⟨taken, local_take _ more found, same⟩

theorem local_ofExcept (r : Except ε α) : (ofExcept r).Local := by
  cases r
  · exact local_fail _
  · exact local_pure

theorem local_withCapacity (most count size : Nat) : (withCapacity most count size : Read ε _).Local := by
  intro c u d more given
  obtain ⟨fits, rfl⟩ := gives_withCapacity.mp given
  exact gives_withCapacity.mpr ⟨fits, rfl⟩

theorem Local.map {g : α → β} (near : x.Local) : (g <$> x).Local := near.bind fun _ => local_pure

theorem local_atLeast {n : Nat} {error : ε} {y : Read ε α} (near : y.Local) :
    (look >>= fun rest => if rest.length < n then fail error else y).Local := by
  intro c a d more given
  obtain ⟨rest, _, looked, found⟩ := gives_bind.mp given
  obtain ⟨rfl, rfl⟩ := gives_look.mp looked
  refine gives_bind.mpr ⟨_, _, gives_look.mpr ⟨rfl, rfl⟩, ?_⟩
  split at found
  · exact absurd found (gives_fail error)
  · next enough =>
      rw [if_neg (by rw [List.length_append]; omega)]
      exact near more found

theorem local_repeated {step : Read ε α} (near : step.Local) (count : Nat) : (repeated step count).Local := by
  induction count with
  | zero => exact local_pure
  | succ count ih =>
      rw [repeated_succ]
      exact near.bind fun _ => ih.map

theorem local_span {word len : Nat} {error : ε} {g : List UInt8 → Read ε β} (some : ∀ bytes, (g bytes).Local) :
    (span word len >>= fun
      | .none => fail error
      | .some bytes => g bytes).Local := by
  intro c b e more given
  obtain ⟨found, d, first, second⟩ := gives_bind.mp given
  cases found with
  | none => exact absurd second (gives_fail error)
  | some bytes => exact gives_bind.mpr ⟨.some bytes, _, first.span_append more, some bytes more second⟩

theorem Local.gives_prefix (near : x.Local) (reads : x.Reads bound bytes a) {pos : Nat} {p : List UInt8}
    (start : p <+: bytes ++ more) (below : pos + (bytes.length + more.length) < bound) {given : α} :
    x.Gives ⟨pos, p⟩ given d ↔ ∃ q, q <+: more ∧ p = bytes ++ q ∧ given = a ∧ d = ⟨pos + bytes.length, q⟩ := by
  constructor
  · intro found
    obtain ⟨missing, whole⟩ := start
    have long := near missing found
    rw [whole] at long
    obtain ⟨rfl, same⟩ := long.unique (reads pos more below)
    obtain ⟨at', after⟩ := Cursor.mk.inj same
    refine ⟨d.rest, ⟨missing, after⟩, ?_, rfl, ?_⟩
    · rw [← after, ← List.append_assoc] at whole
      exact List.append_cancel_right whole
    · rw [← at']
  · rintro ⟨q, within, rfl, rfl, rfl⟩
    have short := within.length_le
    exact reads pos q (by omega)

/-- A program that takes all of `bytes` ends with an error on a part of them. -/
theorem Local.rejects (near : x.Local) (reads : x.Reads bound bytes a) (below : bytes.length < bound)
    {p : List UInt8} (start : p <+: bytes) (part : p ≠ bytes) (safe : x.Safe justified ⟨0, p⟩) :
    ∃ error, (x.exec ⟨0, p⟩).result = .error (.error error) := by
  cases ended : (x.exec ⟨0, p⟩).result with
  | ok given =>
      have whole : p <+: bytes ++ [] := by rwa [List.append_nil]
      obtain ⟨q, within, same, -⟩ := (near.gives_prefix reads whole (by simpa using below)).mp ended
      rw [List.prefix_nil.mp within, List.append_nil] at same
      exact absurd same part
  | error stop =>
      cases stop with
      | error error => exact ⟨error, rfl⟩
      | panic => exact absurd ended safe.1

/-- Given a prefix of `bytes`, `x` does not panic, and it gives a value for those in `ends` only. -/
def Cuts (bound : Nat) (x : Read ε α) (bytes : List UInt8) (ends : List (List UInt8)) : Prop :=
  ∀ pos p, p <+: bytes → pos + bytes.length < bound →
    x.Safe (fun _ => True) ⟨pos, p⟩ ∧ ((∃ a d, x.Gives ⟨pos, p⟩ a d) ↔ p ∈ ends)

variable {ends : List (List UInt8)}

theorem cuts_of_small (cuts : bytes.length < bound → Cuts bound x bytes ends) : Cuts bound x bytes ends :=
  fun pos p start below => cuts (by omega) pos p start below

theorem cuts_pure : Cuts bound (pure a : Read ε α) [] [[]] := by
  intro pos p start _
  obtain rfl := List.prefix_nil.mp start
  exact ⟨safe_pure, by simp⟩

theorem Cuts.bind (near : x.Local) (reads : x.Reads bound bytes a)
    (safe : ∀ pos p, pos + (bytes.length + more.length) < bound → x.Safe (fun _ => True) ⟨pos, p⟩)
    (rest : Cuts bound (f a) more ends) : Cuts bound (x >>= f) (bytes ++ more) (ends.map (bytes ++ ·)) := by
  intro pos p start below
  rw [List.length_append] at below
  have later := fun {q} (within : q <+: more) => rest (pos + bytes.length) q within (by omega)
  constructor
  · refine safe_bind.mpr ⟨safe pos p below, fun given d found => ?_⟩
    obtain ⟨q, within, rfl, rfl, rfl⟩ := (near.gives_prefix reads start below).mp found
    exact (later within).1
  · rw [List.mem_map]
    constructor
    · rintro ⟨b, e, both⟩
      obtain ⟨given, d, found, second⟩ := gives_bind.mp both
      obtain ⟨q, within, rfl, rfl, rfl⟩ := (near.gives_prefix reads start below).mp found
      exact ⟨q, (later within).2.mp ⟨b, e, second⟩, rfl⟩
    · rintro ⟨q, member, rfl⟩
      have within : q <+: more := (List.prefix_append_right_inj bytes).mp start
      have found := (near.gives_prefix reads start below).mpr ⟨q, within, rfl, rfl, rfl⟩
      obtain ⟨b, e, second⟩ := (later within).2.mpr member
      exact ⟨b, e, gives_bind.mpr ⟨a, _, found, second⟩⟩

theorem Cuts.map {g : α → β} (cuts : Cuts bound x bytes ends) :
    Cuts bound (x >>= fun a => pure (g a)) bytes ends := by
  intro pos p start below
  obtain ⟨safe, given⟩ := cuts pos p start below
  rw [← map_eq_bind]
  refine ⟨safe_map.mpr safe, ?_⟩
  rw [← given]
  simp only [gives_map]
  grind

theorem cuts_end {v : α} {y : Read ε α} :
    Cuts bound (look >>= fun rest => if rest = [] then pure v else y) [] [[]] := by
  intro pos p start _
  obtain rfl := List.prefix_nil.mp start
  have same : (look >>= fun rest => if rest = [] then pure v else y).exec ⟨pos, []⟩ =
      (pure v : Read ε α).exec ⟨pos, []⟩ := exec_bind_of_ok (exec_look _)
  refine ⟨(safe_congr same).mpr safe_pure, ?_⟩
  simp [Gives, same]

theorem cuts_unless_end {v : α} {f : UInt8 → Read ε α} {g : α → Read ε β} {first : UInt8}
    (ended : Cuts bound (g v) [] [[]]) (rest : Cuts bound (f first >>= g) bytes ends) :
    Cuts bound ((look >>= fun rest => if rest = [] then pure v else byte >>= f) >>= g) (first :: bytes)
      ([] :: ends.map (first :: ·)) := by
  intro pos p start below
  cases p with
  | nil =>
      have same : ((look >>= fun rest => if rest = [] then pure v else byte >>= f) >>= g).exec ⟨pos, []⟩ =
          (g v).exec ⟨pos, []⟩ := by
        rw [bind_assoc, exec_bind_of_ok (exec_look _), if_pos rfl, pure_bind]
      obtain ⟨safe, given⟩ := ended pos [] List.nil_prefix (by simp at below ⊢; omega)
      refine ⟨(safe_congr same).mpr safe, ?_⟩
      simp only [Gives, same] at given ⊢
      simpa using given
  | cons byte p =>
      obtain ⟨rfl, within⟩ := List.cons_prefix_cons.mp start
      have same : ((look >>= fun rest => if rest = [] then pure v else Read.byte >>= f) >>= g).exec
          ⟨pos, byte :: p⟩ = (f byte >>= g).exec ⟨pos + 1, p⟩ := by
        rw [bind_assoc, exec_bind_of_ok (exec_look _), if_neg (List.cons_ne_nil _ _), bind_assoc]
        exact exec_bind_of_ok (exec_byte rfl)
      obtain ⟨safe, given⟩ := rest (pos + 1) p within (by rw [List.length_cons] at below; omega)
      refine ⟨(safe_congr same).mpr safe, ?_⟩
      simp only [Gives, same] at given ⊢
      rw [given]
      simp

/-! ### Parsers of byte strings -/

def ofParser (p : List UInt8 → Except ε (α × Nat)) : Read ε α := fun c =>
  match p c.rest with
  | .ok (a, n) => ⟨.ok (a, c.skip n), []⟩
  | .error e => ⟨.error (.error e), []⟩

section Parsers
variable {p : List UInt8 → Except ε (α × Nat)} {r : Except ε α} {n : Nat}

theorem exec_ofParser_ok (parsed : p c.rest = .ok (a, n)) : (ofParser p).exec c = ⟨.ok (a, c.skip n), []⟩ := by
  rw [exec, ofParser, parsed]

theorem exec_ofParser_error {error : ε} (failed : p c.rest = .error error) :
    (ofParser p).exec c = ⟨.error (.error error), []⟩ := by
  rw [exec, ofParser, failed]

theorem safe_ofParser : (ofParser p).Safe justified c := by
  cases parsed : p c.rest with
  | error e => simp [Safe, exec_ofParser_error parsed]
  | ok given => simp [Safe, exec_ofParser_ok parsed]

theorem gives_ofParser : (ofParser p).Gives c a d ↔ ∃ n, p c.rest = .ok (a, n) ∧ c.skip n = d := by
  unfold Gives
  cases parsed : p c.rest with
  | error e => simp [exec_ofParser_error parsed]
  | ok given =>
      rw [exec_ofParser_ok parsed]
      constructor
      · intro same
        cases same
        exact ⟨given.2, rfl, rfl⟩
      · rintro ⟨n, same, rfl⟩
        cases same
        rfl

/-- Up to a panic, a program ends as the computation `r` does. -/
def Agrees (x : Read ε α) (c : Cursor) (r : Except ε α) : Prop :=
  (x.exec c).result ≠ .error .panic → (x.exec c).result.map Prod.fst = r.mapError .error

theorem agrees_pure : (pure a : Read ε α).Agrees c (.ok a) := fun _ => rfl

theorem agrees_fail (error : ε) : (fail error : Read ε α).Agrees c (.error error) := fun _ => rfl

theorem agrees_ofExcept (r : Except ε α) : (ofExcept r).Agrees c r := by
  cases r
  · exact agrees_fail _
  · exact agrees_pure

theorem agrees_congr {y : Read ε α} (same : x.exec c = y.exec d) : x.Agrees c r ↔ y.Agrees d r := by
  unfold Agrees
  rw [same]

theorem agrees_bind {g : α → Except ε β} (first : x.Agrees c r)
    (second : ∀ a d, x.Gives c a d → (f a).Agrees d (g a)) : (x >>= f).Agrees c (r >>= g) := by
  unfold Agrees Gives at *
  rw [exec_bind]
  generalize x.exec c = outcome at first second ⊢
  obtain ⟨stop | ⟨a, d⟩, rooms⟩ := outcome
  · cases stop with
    | panic => exact fun calm => absurd rfl calm
    | error e =>
        have ends := first nofun
        cases r with
        | ok b => cases ends
        | error e' =>
            cases ends
            exact fun _ => rfl
  · have ends := first nofun
    cases r with
    | error e => cases ends
    | ok b =>
        cases ends
        exact second a d rfl

/-- A program that cannot fail but by a panic. -/
def Quiet (x : Read ε α) (c : Cursor) : Prop := ∀ e, (x.exec c).result ≠ .error (.error e)

theorem agrees_bind_of_quiet {s : Except ε β} (quiet : x.Quiet c) (second : ∀ a d, x.Gives c a d → (f a).Agrees d s) :
    (x >>= f).Agrees c s := by
  unfold Agrees Quiet Gives at *
  rw [exec_bind]
  generalize x.exec c = outcome at quiet second ⊢
  obtain ⟨stop | ⟨a, d⟩, rooms⟩ := outcome
  · cases stop with
    | error e => exact absurd rfl (quiet e)
    | panic => exact fun calm => absurd rfl calm
  · exact second a d rfl

theorem quiet_look : (look : Read ε _).Quiet c := nofun

theorem quiet_advance (n : Nat) : (advance n : Read ε _).Quiet c := by
  intro e
  by_cases enough : n ≤ c.rest.length
  · rw [exec_advance enough]
    nofun
  · have panics : (advance n : Read ε Unit).exec c = ⟨.error .panic, []⟩ := exec_bind_of_error (if_neg enough)
    rw [panics]
    nofun

theorem quiet_withCapacity (most count size : Nat) : (withCapacity most count size : Read ε _).Quiet c := by
  intro e
  unfold exec withCapacity
  split <;> nofun

end Parsers

theorem safe_repeated_along {step : Read ε α} {P : Cursor → Prop} (each : ∀ c, P c → step.Safe justified c)
    (keeps : ∀ c a d, P c → step.Gives c a d → P d) (start : P c) (count : Nat) :
    (repeated step count).Safe justified c := by
  induction count generalizing c with
  | zero => exact safe_pure
  | succ count ih =>
      rw [repeated_succ, safe_bind]
      refine ⟨each c start, fun a d given => ?_⟩
      exact safe_map.mpr (ih (keeps c a d start given))

end Read
end Lib
