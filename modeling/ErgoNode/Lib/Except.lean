import Mathlib.Data.List.Forall2

/-!
# Loops that may fail

A loop over a list that stops at the first error, as a relation between the list and the results.
-/

namespace Lib
variable {ε α β σ : Type}

@[simp] theorem Except.bind_ok_eq_ok {x : Except ε α} {f : α → Except ε β} {b : β} :
    (x >>= f) = .ok b ↔ ∃ a, x = .ok a ∧ f a = .ok b := by
  cases x <;> simp [bind, Except.bind]

theorem Except.ok_bind (a : α) (f : α → Except ε β) : ((.ok a : Except ε α) >>= f) = f a := rfl

theorem Except.bind_eq_error {x : Except ε α} {f : α → Except ε β} {e : ε} :
    (x >>= f) = .error e ↔ x = .error e ∨ ∃ a, x = .ok a ∧ f a = .error e := by
  cases x <;> simp [bind, Except.bind]

@[simp] theorem Except.map_eq_ok {x : Except ε α} {f : α → β} {b : β} :
    (f <$> x) = .ok b ↔ ∃ a, x = .ok a ∧ f a = b := by
  cases x <;> simp [Functor.map, Except.map]

@[simp] theorem Except.pure_eq_ok {a b : α} : (pure a : Except ε α) = .ok b ↔ a = b :=
  ⟨fun h => Except.ok.inj h, congrArg _⟩

@[simp] theorem Except.throw_ne_ok {e : ε} {b : α} : (throw e : Except ε α) ≠ .ok b := by
  intro h
  cases h

@[simp] theorem Except.mapError_ok_iff {δ : Type} (x : Except ε α) (f : ε → δ) (a : α) :
    x.mapError f = .ok a ↔ x = .ok a := by
  cases x with
  | ok b => simp [Except.mapError]
  | error e => simp [Except.mapError]

@[simp] theorem Except.toOption_eq_some {x : Except ε α} {a : α} :
    x.toOption = some a ↔ x = .ok a := by
  cases x <;> simp [Except.toOption]

instance Except.decidableIsOk (x : Except ε α) : Decidable (∃ a, x = .ok a) :=
  match x with
  | .ok a => .isTrue ⟨a, rfl⟩
  | .error _ => .isFalse fun ⟨_, same⟩ => by cases same

section Pairs
variable {R : α → β → Prop} {xs : List α} {ys : List β}

theorem exists_left (pairs : List.Forall₂ R xs ys) {y : β} (member : y ∈ ys) : ∃ x ∈ xs, R x y := by
  obtain ⟨i, bound, rfl⟩ := List.getElem_of_mem member
  exact ⟨_, List.getElem_mem (pairs.length_eq ▸ bound), pairs.get (pairs.length_eq ▸ bound) bound⟩

theorem exists_right (pairs : List.Forall₂ R xs ys) {x : α} (member : x ∈ xs) : ∃ y ∈ ys, R x y :=
  exists_left (R := fun y x => R x y) (List.Forall₂.flip pairs) member

theorem exists_forall₂ : (∃ ys, List.Forall₂ R xs ys) ↔ ∀ x ∈ xs, ∃ y, R x y := by
  constructor
  · rintro ⟨ys, pairs⟩ x member
    obtain ⟨y, -, related⟩ := exists_right pairs member
    exact ⟨y, related⟩
  · intro each
    induction xs with
    | nil => exact ⟨[], .nil⟩
    | cons x xs ih =>
        obtain ⟨y, head⟩ := each x List.mem_cons_self
        obtain ⟨ys, tail⟩ := ih fun a member => each a (List.mem_cons_of_mem _ member)
        exact ⟨y :: ys, .cons head tail⟩

end Pairs

theorem mapM_eq_ok {f : α → Except ε β} {xs : List α} {ys : List β} :
    xs.mapM f = .ok ys ↔ List.Forall₂ (fun x y => f x = .ok y) xs ys := by
  induction xs generalizing ys with
  | nil => rw [List.mapM_nil, Except.pure_eq_ok, List.forall₂_nil_left_iff, eq_comm]
  | cons x xs ih =>
      simp only [List.mapM_cons, Except.bind_ok_eq_ok, Except.pure_eq_ok, List.forall₂_cons_left_iff, ih,
        exists_and_left, @eq_comm _ ys]

theorem mapM_eq_some {f : α → Option β} {xs : List α} {ys : List β} :
    xs.mapM f = some ys ↔ List.Forall₂ (fun x y => f x = some y) xs ys := by
  induction xs generalizing ys with
  | nil => simp [eq_comm]
  | cons x xs ih =>
      simp only [List.mapM_cons, Option.bind_eq_bind, Option.bind_eq_some_iff, Option.pure_def, Option.some.injEq,
        List.forall₂_cons_left_iff, ih, exists_and_left, @eq_comm _ ys]

theorem exists_mapM_eq_ok {f : α → Except ε β} {xs : List α} :
    (∃ ys, xs.mapM f = .ok ys) ↔ ∀ x ∈ xs, ∃ y, f x = .ok y := by
  simp only [mapM_eq_ok]
  exact exists_forall₂

theorem forM_eq_ok {f : α → Except ε Unit} {xs : List α} :
    xs.forM f = .ok () ↔ ∀ x ∈ xs, f x = .ok () := by
  induction xs with
  | nil => simp [List.forM_nil, Except.pure_eq_ok]
  | cons x xs ih =>
      have unfolded : (x :: xs).forM f = (f x >>= fun _ => xs.forM f) := rfl
      rw [unfolded, Except.bind_ok_eq_ok, ih, List.forall_mem_cons]
      exact ⟨fun ⟨_, first, rest⟩ => ⟨first, rest⟩, fun ⟨first, rest⟩ => ⟨(), first, rest⟩⟩

theorem exists_of_mapM_eq_error {f : α → Except ε β} {xs : List α} {e : ε} (failed : xs.mapM f = .error e) :
    ∃ x ∈ xs, f x = .error e := by
  induction xs with
  | nil => cases failed
  | cons x xs ih =>
      rw [List.mapM_cons, Except.bind_eq_error] at failed
      rcases failed with first | ⟨y, -, failed⟩
      · exact ⟨x, List.mem_cons_self, first⟩
      · rcases Except.bind_eq_error.mp failed with later | ⟨ys, -, pure⟩
        · obtain ⟨x, member, here⟩ := ih later
          exact ⟨x, List.mem_cons_of_mem _ member, here⟩
        · cases pure

theorem exists_of_forM_eq_error {f : α → Except ε Unit} {xs : List α} {e : ε} (failed : xs.forM f = .error e) :
    ∃ x ∈ xs, f x = .error e := by
  induction xs with
  | nil => cases failed
  | cons x xs ih =>
      have unfolded : (x :: xs).forM f = (f x >>= fun _ => xs.forM f) := rfl
      rw [unfolded, Except.bind_eq_error] at failed
      rcases failed with first | ⟨_, -, later⟩
      · exact ⟨x, List.mem_cons_self, first⟩
      · obtain ⟨x, member, here⟩ := ih later
        exact ⟨x, List.mem_cons_of_mem _ member, here⟩

theorem exists_of_foldlM_eq_error {f : σ → α → Except ε σ} {xs : List α} {s : σ} {e : ε}
    (failed : xs.foldlM f s = .error e) :
    ∃ front x back t, xs = front ++ x :: back ∧ front.foldlM f s = .ok t ∧ f t x = .error e := by
  induction xs generalizing s with
  | nil => cases failed
  | cons x xs ih =>
      rw [List.foldlM_cons, Except.bind_eq_error] at failed
      rcases failed with first | ⟨u, ran, later⟩
      · exact ⟨[], x, xs, s, rfl, rfl, first⟩
      · obtain ⟨front, y, back, t, rfl, before, here⟩ := ih later
        refine ⟨x :: front, y, back, t, rfl, ?_, here⟩
        rw [List.foldlM_cons, ran]
        exact before

theorem foldlM_prefix_invariant (Inv : List α → σ → Prop) {f : σ → α → Except ε σ}
    (preserved : ∀ {done s x t}, Inv done s → f s x = .ok t → Inv (done ++ [x]) t) {xs done : List α}
    {s t : σ} (start : Inv done s) (ran : xs.foldlM f s = .ok t) : Inv (done ++ xs) t := by
  induction xs generalizing done s with
  | nil =>
      rw [List.foldlM_nil, Except.pure_eq_ok] at ran
      rwa [List.append_nil, ← ran]
  | cons x xs ih =>
      rw [List.foldlM_cons, Except.bind_ok_eq_ok] at ran
      obtain ⟨u, first, rest⟩ := ran
      have later := ih (preserved start first) rest
      rwa [List.append_assoc] at later

theorem foldlM_invariant (Inv : σ → Prop) {f : σ → α → Except ε σ}
    (preserved : ∀ {s x t}, Inv s → f s x = .ok t → Inv t) {xs : List α} {s t : σ} (start : Inv s)
    (ran : xs.foldlM f s = .ok t) : Inv t :=
  @foldlM_prefix_invariant _ _ _ (fun _ => Inv) _ preserved _ [] _ _ start ran

/-- What each step adds to an invariant over the elements done so far holds after the whole loop. -/
theorem foldlM_zipIdx_invariant (Inv : List α → σ → Prop) {f : σ → α × Nat → Except ε σ}
    (preserved : ∀ {done s x i t}, Inv done s → f s (x, i) = .ok t → Inv (done ++ [x]) t)
    {xs done : List α} {i : Nat} {s t : σ} (start : Inv done s)
    (ran : (xs.zipIdx i).foldlM f s = .ok t) : Inv (done ++ xs) t := by
  have inv := @foldlM_prefix_invariant _ _ _ (fun pairs => Inv (done ++ pairs.map Prod.fst)) f
    (by
      intro pairs s ⟨x, i⟩ t inv step
      rw [List.map_append, ← List.append_assoc]
      exact preserved inv step)
    (xs.zipIdx i) [] s t (by simpa using start) ran
  rwa [List.nil_append, List.zipIdx_map_fst] at inv

theorem foldlM_simulation {τ : Type} (Rel : σ → τ → Prop) {f : σ → α → Except ε σ} {g : τ → α → Except ε τ}
    {xs : List α} {s s' : σ} {t : τ} (ran : xs.foldlM f s = .ok s') (start : Rel s t)
    (simulated : ∀ {s t x s'}, Rel s t → f s x = .ok s' → ∃ t', g t x = .ok t' ∧ Rel s' t') :
    ∃ t', xs.foldlM g t = .ok t' ∧ Rel s' t' := by
  induction xs generalizing s t with
  | nil =>
      rw [List.foldlM_nil, Except.pure_eq_ok] at ran
      exact ⟨t, rfl, ran ▸ start⟩
  | cons x xs ih =>
      rw [List.foldlM_cons, Except.bind_ok_eq_ok] at ran
      obtain ⟨u, first, rest⟩ := ran
      obtain ⟨v, taken, related⟩ := simulated start first
      obtain ⟨t', later, final⟩ := ih rest related
      exact ⟨t', by rw [List.foldlM_cons, taken]; exact later, final⟩

/-- A loop whose body fetches a value and then updates an accumulator fetches all values first. -/
theorem foldlM_eq_mapM (f : α → Except ε β) (update : σ → α → β → σ) (xs : List α) (s : σ) :
    xs.foldlM (fun acc x => do return update acc x (← f x)) s =
      do return (xs.zip (← xs.mapM f)).foldl (fun acc xy => update acc xy.1 xy.2) s := by
  induction xs generalizing s with
  | nil => rfl
  | cons x xs ih =>
      rw [List.foldlM_cons, List.mapM_cons]
      cases f x with
      | error e => rfl
      | ok y =>
          simp only [bind_assoc, pure_bind]
          refine (ih _).trans ?_
          cases xs.mapM f <;> rfl

end Lib
