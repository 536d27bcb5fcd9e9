import Mathlib.Algebra.GroupWithZero.Nat
import Mathlib.Logic.Function.Basic

/-!
# Fallible operations on shared state

An operation reads and writes a state that other components share, and may fail after it has
already written. `Op σ ε` is the core monad for it: an error keeps the state of the moment it was
raised. `exec` runs an operation, and the lemmas here say what a sequence of operations does in
terms of its parts.
-/

namespace Lib

/-- Operations on a shared state `σ` that fail with an `ε`; a failure keeps the writes made so far. -/
abbrev Op (σ ε : Type) := ExceptT ε (StateM σ)

namespace Op
variable {σ τ ε α β : Type}

def exec (x : Op σ ε α) (s : σ) : Except ε α × σ := x.run.run s

def zoom (view : σ → τ) (put : τ → σ → σ) (x : Op τ ε α) : Op σ ε α :=
  ExceptT.mk (fun s => ((x.exec (view s)).1, put (x.exec (view s)).2 s))

def mapError {φ : Type} (f : ε → φ) (x : Op σ ε α) : Op σ φ α :=
  ExceptT.mk (fun s => ((x.exec s).1.mapError f, (x.exec s).2))

def attempt (x : Op σ ε α) : Op σ ε Unit := ExceptT.mk (fun s => (.ok (), (x.exec s).2))

@[simp] theorem exec_pure (a : α) (s : σ) : (pure a : Op σ ε α).exec s = (.ok a, s) := rfl

@[simp] theorem exec_throw (e : ε) (s : σ) : (throw e : Op σ ε α).exec s = (.error e, s) := rfl

@[simp] theorem exec_get (s : σ) : (get : Op σ ε σ).exec s = (.ok s, s) := rfl

@[simp] theorem exec_set (t s : σ) : (set t : Op σ ε PUnit).exec s = (.ok ⟨⟩, t) := rfl

@[simp] theorem exec_modify (f : σ → σ) (s : σ) :
    (modify f : Op σ ε PUnit).exec s = (.ok ⟨⟩, f s) := rfl

@[simp] theorem exec_ofExcept (r : Except ε α) (s : σ) :
    (MonadExcept.ofExcept r : Op σ ε α).exec s = (r, s) := by
  cases r <;> rfl

@[simp] theorem exec_zoom (view : σ → τ) (put : τ → σ → σ) (x : Op τ ε α) (s : σ) :
    (zoom view put x).exec s = ((x.exec (view s)).1, put (x.exec (view s)).2 s) := rfl

@[simp] theorem exec_mapError {φ : Type} (f : ε → φ) (x : Op σ ε α) (s : σ) :
    (x.mapError f).exec s = ((x.exec s).1.mapError f, (x.exec s).2) := rfl

theorem exec_bind (x : Op σ ε α) (f : α → Op σ ε β) (s : σ) :
    (x >>= f).exec s = match x.exec s with
      | (.ok a, t) => (f a).exec t
      | (.error e, t) => (.error e, t) := by
  change (ExceptT.bind x f).run.run s = _
  simp only [ExceptT.bind, ExceptT.run, ExceptT.mk, StateT.run, bind, StateT.bind, exec]
  rcases x s with ⟨r, t⟩
  cases r with
  | ok a => rfl
  | error e => rfl

theorem exec_bind_of_ok {x : Op σ ε α} {f : α → Op σ ε β} {s t : σ} {a : α}
    (h : x.exec s = (.ok a, t)) : (x >>= f).exec s = (f a).exec t := by
  rw [exec_bind, h]

theorem exec_bind_of_error {x : Op σ ε α} {f : α → Op σ ε β} {s t : σ} {e : ε}
    (h : x.exec s = (.error e, t)) : (x >>= f).exec s = (.error e, t) := by
  rw [exec_bind, h]

theorem exec_bind_eq_ok {x : Op σ ε α} {f : α → Op σ ε β} {s u : σ} {b : β} :
    (x >>= f).exec s = (.ok b, u) ↔ ∃ a t, x.exec s = (.ok a, t) ∧ (f a).exec t = (.ok b, u) := by
  rw [exec_bind]
  rcases h : x.exec s with ⟨r, t⟩
  cases r with
  | ok a =>
      constructor
      · intro done
        exact ⟨a, t, rfl, done⟩
      · rintro ⟨a', t', same, done⟩
        cases same
        exact done
  | error e => simp

theorem exec_ofExcept_bind_eq_ok {r : Except ε α} {f : α → Op σ ε β} {s u : σ} {b : β} :
    (MonadExcept.ofExcept r >>= f).exec s = (.ok b, u) ↔ ∃ a, r = .ok a ∧ (f a).exec s = (.ok b, u) := by
  rw [exec_bind, exec_ofExcept]
  cases r with
  | ok a => simp
  | error e => simp

theorem exec_bind_eq_error {x : Op σ ε α} {f : α → Op σ ε β} {s u : σ} {e : ε} :
    (x >>= f).exec s = (.error e, u) ↔
      x.exec s = (.error e, u) ∨ ∃ a t, x.exec s = (.ok a, t) ∧ (f a).exec t = (.error e, u) := by
  rw [exec_bind]
  rcases h : x.exec s with ⟨r, t⟩
  cases r with
  | ok a =>
      constructor
      · intro failed
        exact .inr ⟨a, t, rfl, failed⟩
      · rintro (first | ⟨a', t', same, failed⟩)
        · cases first
        · cases same
          exact failed
  | error other => simp

/-! An operation whose result is thrown away. -/

theorem exec_discard (x : Op σ ε α) (s : σ) :
    (do let _ ← x : Op σ ε Unit).exec s = ((x.exec s).1.map fun _ => (), (x.exec s).2) := by
  rw [exec_bind]
  rcases x.exec s with ⟨r, t⟩
  cases r with
  | ok a => rfl
  | error e => rfl

theorem exec_discard_eq_ok {x : Op σ ε α} {s t : σ} :
    (do let _ ← x : Op σ ε Unit).exec s = (.ok (), t) ↔ ∃ a, x.exec s = (.ok a, t) := by
  rw [exec_discard]
  rcases x.exec s with ⟨r, u⟩
  cases r with
  | ok a => simp [Except.map]
  | error e => simp [Except.map]

@[simp] theorem exec_ite (c : Prop) [Decidable c] (x y : Op σ ε α) (s : σ) :
    (if c then x else y).exec s = if c then x.exec s else y.exec s := by
  split <;> rfl

def forEach (body : α → Op σ ε Unit) : List α → Op σ ε Unit
  | [] => pure ()
  | a :: rest => do
      body a
      forEach body rest

@[simp] theorem exec_forEach_nil (body : α → Op σ ε Unit) (s : σ) :
    (forEach body []).exec s = (.ok (), s) := rfl

theorem exec_forEach_cons (body : α → Op σ ε Unit) (a : α) (rest : List α) (s : σ) :
    (forEach body (a :: rest)).exec s = match (body a).exec s with
      | (.ok _, t) => (forEach body rest).exec t
      | (.error e, t) => (.error e, t) := by
  rw [forEach, exec_bind]
  rcases (body a).exec s with ⟨r, t⟩
  cases r <;> rfl

theorem exec_forEach_cons_of_ok {body : α → Op σ ε Unit} {a : α} {rest : List α} {s t : σ}
    (h : (body a).exec s = (.ok (), t)) :
    (forEach body (a :: rest)).exec s = (forEach body rest).exec t := by
  rw [exec_forEach_cons, h]

theorem exec_forEach_append (body : α → Op σ ε Unit) (first second : List α) (s : σ) :
    (forEach body (first ++ second)).exec s = match (forEach body first).exec s with
      | (.ok _, t) => (forEach body second).exec t
      | (.error e, t) => (.error e, t) := by
  induction first generalizing s with
  | nil => rfl
  | cons a rest ih =>
      rw [List.cons_append, exec_forEach_cons, exec_forEach_cons]
      rcases (body a).exec s with ⟨r, t⟩
      cases r with
      | ok _ => exact ih t
      | error e => rfl

theorem exec_forEach_singleton (body : α → Op σ ε Unit) (a : α) (s : σ) :
    (forEach body [a]).exec s = (body a).exec s := by
  rw [exec_forEach_cons]
  rcases (body a).exec s with ⟨r, t⟩
  cases r <;> rfl

/-! ### What an operation leaves alone -/

def Keeps (f : σ → τ) (x : Op σ ε α) : Prop := ∀ s, f (x.exec s).2 = f s

section Keeps
variable {f : σ → τ} {x : Op σ ε α}

theorem keeps_pure (a : α) : Keeps f (pure a : Op σ ε α) := fun _ => rfl

theorem keeps_throw (e : ε) : Keeps f (throw e : Op σ ε α) := fun _ => rfl

theorem keeps_get : Keeps f (get : Op σ ε σ) := fun _ => rfl

theorem keeps_ofExcept (r : Except ε α) : Keeps f (MonadExcept.ofExcept r : Op σ ε α) := by
  intro s
  rw [exec_ofExcept]

theorem keeps_modify {g : σ → σ} (h : ∀ s, f (g s) = f s) : Keeps f (modify g : Op σ ε PUnit) := h

theorem keeps_attempt (h : Keeps f x) : Keeps f (attempt x) := h

theorem Keeps.bind {g : α → Op σ ε β} (first : Keeps f x) (second : ∀ a, Keeps f (g a)) :
    Keeps f (x >>= g) := by
  intro s
  have kept := first s
  rw [exec_bind]
  rcases ran : x.exec s with ⟨r, t⟩
  rw [ran] at kept
  cases r with
  | ok a => exact (second a t).trans kept
  | error e => exact kept

theorem Keeps.ofExcept_bind {r : Except ε α} {g : α → Op σ ε β} (rest : ∀ a, r = .ok a → Keeps f (g a)) :
    Keeps f (MonadExcept.ofExcept r >>= g) := by
  intro s
  cases r with
  | ok a => exact rest a rfl s
  | error e => rfl

theorem Keeps.ite {y : Op σ ε α} {c : Prop} [Decidable c] (first : Keeps f x) (second : Keeps f y) :
    Keeps f (if c then x else y) := by
  split
  · exact first
  · exact second

theorem Keeps.forEach {body : α → Op σ ε Unit} (h : ∀ a, Keeps f (body a)) (list : List α) :
    Keeps f (forEach body list) := by
  induction list with
  | nil => exact keeps_pure ()
  | cons a rest ih => exact (h a).bind fun _ => ih

end Keeps

/-! ### Where an operation ends -/

def Ends (P : σ → Prop) (x : Op σ ε α) (s : σ) : Prop := P (x.exec s).2

section Ends
variable {P : σ → Prop} {x : Op σ ε α} {s : σ}

theorem Ends.bind {f : α → Op σ ε β} (first : Ends P x s)
    (second : ∀ a t, x.exec s = (.ok a, t) → P t → Ends P (f a) t) : Ends P (x >>= f) s := by
  unfold Ends at first second ⊢
  rw [exec_bind]
  rcases ran : x.exec s with ⟨r, t⟩
  rw [ran] at first
  cases r with
  | ok a => exact second a t ran first
  | error e => exact first

theorem Ends.mono {Q : σ → Prop} (weaker : ∀ t, P t → Q t) (ends : Ends P x s) : Ends Q x s := weaker _ ends

theorem ends_discard_iff {b : β} : Ends P (x >>= fun _ => pure b) s ↔ Ends P x s := by
  unfold Ends
  rw [exec_bind]
  rcases x.exec s with ⟨r, t⟩
  cases r <;> rfl

theorem Ends.zoom {view : σ → τ} {put : τ → σ → σ} {y : Op τ ε α} (inner : Ends (fun t => P (put t s)) y (view s)) :
    Ends P (zoom view put y) s := inner

theorem Ends.mapError {φ : Type} {f : ε → φ} (ends : Ends P x s) : Ends P (x.mapError f) s := ends

theorem Ends.get_bind {f : σ → Op σ ε β} (rest : Ends P (f s) s) : Ends P (get >>= f) s := by
  unfold Ends
  rw [exec_bind, exec_get]
  exact rest

theorem Ends.modify_bind {g : σ → σ} {f : PUnit → Op σ ε β} (rest : Ends P (f ⟨⟩) (g s)) :
    Ends P (modify g >>= f) s := by
  unfold Ends
  rw [exec_bind, exec_modify]
  exact rest

theorem Ends.ofExcept_bind {r : Except ε α} {f : α → Op σ ε β} (here : P s)
    (rest : ∀ a, r = .ok a → Ends P (f a) s) : Ends P (MonadExcept.ofExcept r >>= f) s := by
  cases r with
  | ok a => exact rest a rfl
  | error e => exact here

theorem Ends.ite {y : Op σ ε α} {c : Prop} [Decidable c] (first : c → Ends P x s) (second : ¬ c → Ends P y s) :
    Ends P (if c then x else y) s := by
  split
  · next holds => exact first holds
  · next fails => exact second fails

theorem Ends.forEach_mem {body : α → Op σ ε Unit} {list : List α} (h : ∀ a ∈ list, ∀ t, P t → Ends P (body a) t)
    (here : P s) : Ends P (forEach body list) s := by
  induction list generalizing s with
  | nil => exact here
  | cons a rest ih =>
      refine (h a List.mem_cons_self s here).bind fun _ _ _ there => ?_
      exact ih (fun b member => h b (List.mem_cons_of_mem _ member)) there

theorem Ends.forEach {body : α → Op σ ε Unit} (h : ∀ a t, P t → Ends P (body a) t) (list : List α) (here : P s) :
    Ends P (forEach body list) s :=
  forEach_mem (fun a _ => h a) here

end Ends

/-! ### Where an operation goes through -/

def Finishes (P : σ → Prop) (x : Op σ ε α) (s : σ) : Prop := ∃ a t, x.exec s = (.ok a, t) ∧ P t

section Finishes
variable {P : σ → Prop} {x : Op σ ε α} {s : σ}

theorem finishes_pure (a : α) (here : P s) : Finishes P (pure a : Op σ ε α) s := ⟨a, s, rfl, here⟩

theorem Finishes.bind {f : α → Op σ ε β} (first : Finishes P x s) (second : ∀ a t, P t → Finishes P (f a) t) :
    Finishes P (x >>= f) s := by
  obtain ⟨a, t, ran, here⟩ := first
  obtain ⟨b, u, later, last⟩ := second a t here
  exact ⟨b, u, by rw [exec_bind_of_ok ran, later], last⟩

theorem Finishes.get_bind {f : σ → Op σ ε β} (rest : Finishes P (f s) s) : Finishes P (get >>= f) s := by
  unfold Finishes
  rw [exec_bind, exec_get]
  exact rest

theorem Finishes.modify_bind {g : σ → σ} {f : PUnit → Op σ ε β} (rest : Finishes P (f ⟨⟩) (g s)) :
    Finishes P (modify g >>= f) s := by
  unfold Finishes
  rw [exec_bind, exec_modify]
  exact rest

theorem Finishes.ok_bind {a : α} {f : α → Op σ ε β} (rest : Finishes P (f a) s) :
    Finishes P (MonadExcept.ofExcept (.ok a) >>= f) s := rest

theorem Finishes.ite {y : Op σ ε α} {c : Prop} [Decidable c] (first : Finishes P x s) (second : Finishes P y s) :
    Finishes P (if c then x else y) s := by
  split
  · exact first
  · exact second

end Finishes

end Op
end Lib

/-!
### Ghost state

An operation can be run beside a ghost that it writes to and never reads. What it returns and does to
the state proper is what the operation without the ghost returns and does.
-/

namespace Lib.Op
variable {σ γ ε α β : Type}

/-- The operation, with a note of the state it began in and of what it returned. -/
def noted (note : σ → Except ε α → γ → γ) (x : Op σ ε α) : Op (σ × γ) ε α :=
  ExceptT.mk fun s => ((x.exec s.1).1, ((x.exec s.1).2, note s.1 (x.exec s.1).1 s.2))

@[simp] theorem exec_noted (note : σ → Except ε α → γ → γ) (x : Op σ ε α) (s : σ × γ) :
    (noted note x).exec s = ((x.exec s.1).1, ((x.exec s.1).2, note s.1 (x.exec s.1).1 s.2)) := rfl

/-- Without the ghost, `y` is `x`. -/
def Erases (y : Op (σ × γ) ε α) (x : Op σ ε α) : Prop :=
  ∀ s, (y.exec s).1 = (x.exec s.1).1 ∧ (y.exec s).2.1 = (x.exec s.1).2

section Erases
variable {y : Op (σ × γ) ε α} {x : Op σ ε α}

theorem erases_pure (a : α) : Erases (pure a : Op (σ × γ) ε α) (pure a : Op σ ε α) := fun _ => ⟨rfl, rfl⟩

theorem erases_throw (e : ε) : Erases (throw e : Op (σ × γ) ε α) (throw e : Op σ ε α) := fun _ => ⟨rfl, rfl⟩

theorem erases_noted (note : σ → Except ε α → γ → γ) : Erases (noted note x) x := fun _ => ⟨rfl, rfl⟩

theorem erases_modify {f : σ × γ → σ × γ} {g : σ → σ} (same : ∀ s, (f s).1 = g s.1) :
    Erases (modify f : Op (σ × γ) ε PUnit) (modify g : Op σ ε PUnit) := fun s => ⟨rfl, same s⟩

theorem Erases.bind {f : α → Op (σ × γ) ε β} {g : α → Op σ ε β} (first : Erases y x)
    (second : ∀ a, Erases (f a) (g a)) : Erases (y >>= f) (x >>= g) := by
  intro s
  obtain ⟨result, state⟩ := first s
  rw [exec_bind, exec_bind]
  rcases ran : y.exec s with ⟨r, t⟩
  rcases plain : x.exec s.1 with ⟨q, u⟩
  rw [ran, plain] at result state
  dsimp only at result state
  subst result state
  cases r with
  | ok a => exact second a t
  | error e => exact ⟨rfl, rfl⟩

theorem Erases.get_bind {f : σ × γ → Op (σ × γ) ε β} {g : σ → Op σ ε β} (rest : ∀ s, Erases (f s) (g s.1)) :
    Erases (get >>= f) (get >>= g) := by
  intro s
  rw [exec_bind_of_ok (exec_get s), exec_bind_of_ok (exec_get s.1)]
  exact rest s s

theorem Erases.ite {z : Op (σ × γ) ε α} {w : Op σ ε α} {c : Prop} [Decidable c] (first : Erases y x)
    (second : Erases z w) : Erases (if c then y else z) (if c then x else w) := by
  split
  · exact first
  · exact second

theorem Erases.forEach {body : α → Op (σ × γ) ε Unit} {plain : α → Op σ ε Unit} (same : ∀ a, Erases (body a) (plain a))
    (list : List α) : Erases (forEach body list) (forEach plain list) := by
  induction list with
  | nil => exact erases_pure ()
  | cons a rest ih => exact (same a).bind fun _ => ih

end Erases

end Lib.Op

/-!
### Scripts

A script beside the state says which of the coming accesses fail. Where those that an operation makes all work,
it does what it would do without a script.
-/

namespace Lib.Op
variable {σ τ ε α β : Type}

/-- One access: `true` is one that fails. Past the end of the script all work. -/
def access (e : ε) : Op (List Bool) ε Unit := do
  match ← get with
  | [] => return ()
  | fails :: rest =>
      set rest
      if fails then throw e else return ()

def accesses (e : ε) : Nat → Op (List Bool) ε Unit
  | 0 => pure ()
  | count + 1 => do
      access e
      accesses e count

def scripted (x : Op (List Bool) ε α) : Op (σ × List Bool) ε α := zoom Prod.snd (fun script s => (s.1, script)) x

def unscripted (x : Op σ ε α) : Op (σ × List Bool) ε α := zoom Prod.fst (fun s both => (s, both.2)) x

def zoomScripted (view : σ → τ) (put : τ → σ → σ) (x : Op (τ × List Bool) ε α) : Op (σ × List Bool) ε α :=
  zoom (fun s => (view s.1, s.2)) (fun t s => (put t.1 s.1, t.2)) x

/-! #### Accesses that work -/

def Works (count : Nat) (script : List Bool) : Prop := ∀ fails ∈ script.take count, fails = false

instance (count : Nat) (script : List Bool) : Decidable (Works count script) :=
  inferInstanceAs (Decidable (∀ fails ∈ script.take count, fails = false))

theorem works_add {m n : Nat} {script : List Bool} : Works (m + n) script ↔ Works m script ∧ Works n (script.drop m) := by
  unfold Works
  rw [List.take_add, List.forall_mem_append]

/-- Where so many accesses work the operation makes them and returns this. -/
def Makes (x : Op (List Bool) ε α) (count : Nat) (a : α) : Prop :=
  ∀ script, Works count script → x.exec script = (.ok a, script.drop count)

section Makes
variable {x : Op (List Bool) ε α} {f : α → Op (List Bool) ε β} {e : ε} {m n count : Nat} {a : α} {b : β}

theorem makes_pure (a : α) : Makes (pure a : Op (List Bool) ε α) 0 a := fun _ _ => rfl

theorem makes_ofExcept {r : Except ε α} (done : r = .ok a) : Makes (MonadExcept.ofExcept r : Op (List Bool) ε α) 0 a := by
  intro script _
  rw [exec_ofExcept, done]
  rfl

theorem Makes.bind (first : Makes x m a) (second : Makes (f a) n b) : Makes (x >>= f) (m + n) b := by
  intro script works
  obtain ⟨now, later⟩ := works_add.mp works
  rw [exec_bind_of_ok (first script now), second _ later, List.drop_drop]

theorem makes_access (e : ε) : Makes (access e) 1 () := by
  intro script works
  cases script with
  | nil => rfl
  | cons fails rest =>
      obtain rfl := works fails (List.mem_cons_self ..)
      rfl

theorem makes_accesses (e : ε) (count : Nat) : Makes (accesses e count) count () := by
  induction count with
  | zero => exact makes_pure ()
  | succ count ih =>
      have made := (makes_access e).bind (f := fun _ => accesses e count) ih
      rwa [Nat.add_comm 1 count] at made

theorem accesses_eq_ok {script rest : List Bool} (done : (accesses e count).exec script = (.ok (), rest)) :
    Works count script ∧ rest = script.drop count := by
  induction count generalizing script with
  | zero =>
      cases done
      exact ⟨by simp [Works], rfl⟩
  | succ count ih =>
      cases script with
      | nil =>
          rw [makes_accesses e _ [] (by simp [Works])] at done
          cases done
          exact ⟨by simp [Works], rfl⟩
      | cons fails script =>
          cases fails with
          | true => cases done
          | false =>
              obtain ⟨works, last⟩ := @ih script done
              exact ⟨by simpa [Works] using works, last⟩

theorem Makes.foldlM {body : β → α → Op (List Bool) ε β} {plain : β → α → Except ε β} {cost : α → Nat} {list : List α}
    (each : ∀ a ∈ list, ∀ b c, plain b a = .ok c → Makes (body b a) (cost a) c) {b c : β}
    (done : list.foldlM plain b = .ok c) : Makes (list.foldlM body b) (list.map cost).sum c := by
  induction list generalizing b with
  | nil =>
      cases done
      exact makes_pure _
  | cons a rest ih =>
      rw [List.foldlM_cons] at done ⊢
      cases step : plain b a with
      | error e =>
          rw [step] at done
          cases done
      | ok next =>
          rw [step] at done
          rw [List.map_cons, List.sum_cons]
          refine (each a (List.mem_cons_self ..) b next step).bind ?_
          exact ih (fun a member => each a (List.mem_cons_of_mem _ member)) done

end Makes

/-! #### Nothing fails -/

/-- With a script that has come to its end, `x` comes to `r`. -/
def Quiet (x : Op (List Bool) ε α) (r : Except ε α) : Prop := x.exec [] = (r, [])

section Quiet
variable {x : Op (List Bool) ε α} {r : Except ε α}

theorem quiet_pure (a : α) : Quiet (pure a : Op (List Bool) ε α) (pure a) := rfl

theorem quiet_ofExcept (r : Except ε α) : Quiet (MonadExcept.ofExcept r : Op (List Bool) ε α) r := by
  rw [Quiet, exec_ofExcept]

theorem Quiet.bind {f : α → Op (List Bool) ε β} {g : α → Except ε β} (first : Quiet x r)
    (second : ∀ a, Quiet (f a) (g a)) : Quiet (x >>= f) (r >>= g) := by
  rw [Quiet, exec_bind, first]
  cases r with
  | ok a => exact second a
  | error e => rfl

theorem Quiet.after {z : Op (List Bool) ε Unit} (first : Quiet z (.ok ())) (same : Quiet x r) :
    Quiet (z >>= fun _ => x) r := by
  rwa [Quiet, exec_bind_of_ok first]

theorem quiet_access (e : ε) : Quiet (access e) (.ok ()) := rfl

theorem quiet_accesses (e : ε) (count : Nat) : Quiet (accesses e count) (.ok ()) := by
  have made := makes_accesses e count [] (by simp [Works])
  rwa [List.drop_nil] at made

theorem quiet_foldlM {body : β → α → Op (List Bool) ε β} {plain : β → α → Except ε β}
    (each : ∀ b a, Quiet (body b a) (plain b a)) (list : List α) (b : β) :
    Quiet (list.foldlM body b) (list.foldlM plain b) := by
  induction list generalizing b with
  | nil => exact quiet_pure b
  | cons a rest ih =>
      rw [List.foldlM_cons, List.foldlM_cons]
      exact (each b a).bind ih

end Quiet

/-- With a script that has come to its end, `y` is `x`. -/
def Follows (y : Op (σ × List Bool) ε α) (x : Op σ ε α) : Prop :=
  ∀ s, y.exec (s, []) = ((x.exec s).1, ((x.exec s).2, []))

section Follows
variable {y : Op (σ × List Bool) ε α} {x : Op σ ε α}

theorem follows_pure (a : α) : Follows (pure a : Op (σ × List Bool) ε α) (pure a : Op σ ε α) := fun _ => rfl

theorem follows_throw (e : ε) : Follows (throw e : Op (σ × List Bool) ε α) (throw e : Op σ ε α) := fun _ => rfl

theorem follows_unscripted : Follows (unscripted x) x := fun _ => rfl

theorem follows_ofExcept (r : Except ε α) :
    Follows (MonadExcept.ofExcept r : Op (σ × List Bool) ε α) (MonadExcept.ofExcept r : Op σ ε α) := by
  cases r <;> exact fun _ => rfl

theorem follows_scripted {z : Op (List Bool) ε α} {r : Except ε α} (quiet : Quiet z r) :
    Follows (scripted z : Op (σ × List Bool) ε α) (MonadExcept.ofExcept r) := by
  intro s
  rw [scripted, exec_zoom, quiet, exec_ofExcept]

theorem Follows.zoom {z : Op (τ × List Bool) ε α} {w : Op τ ε α} (inner : Follows z w) (view : σ → τ) (put : τ → σ → σ) :
    Follows (zoomScripted view put z) (zoom view put w) := by
  intro s
  rw [zoomScripted, exec_zoom, exec_zoom, inner]

theorem Follows.attempt (same : Follows y x) : Follows (attempt y) (attempt x) := by
  intro s
  change (_, (y.exec (s, [])).2) = _
  rw [same]
  rfl

theorem Follows.bind {f : α → Op (σ × List Bool) ε β} {g : α → Op σ ε β} (first : Follows y x)
    (second : ∀ a, Follows (f a) (g a)) : Follows (y >>= f) (x >>= g) := by
  intro s
  rw [exec_bind, exec_bind, first]
  rcases x.exec s with ⟨r, t⟩
  cases r with
  | ok a => exact second a t
  | error e => rfl

theorem Follows.get_bind {f : σ × List Bool → Op (σ × List Bool) ε β} {g : σ → Op σ ε β}
    (rest : ∀ s, Follows (f (s, [])) (g s)) : Follows (get >>= f) (get >>= g) := by
  intro s
  rw [exec_bind_of_ok (exec_get (s, [])), exec_bind_of_ok (exec_get s)]
  exact rest s s

theorem Follows.after {z : Op (List Bool) ε Unit} (first : Quiet z (.ok ())) (same : Follows y x) :
    Follows (scripted z >>= fun _ => y) x := by
  intro s
  rw [exec_bind, scripted, exec_zoom, first]
  exact same s

theorem Follows.ite {z : Op (σ × List Bool) ε α} {w : Op σ ε α} {c : Prop} [Decidable c] (first : Follows y x)
    (second : Follows z w) : Follows (if c then y else z) (if c then x else w) := by
  split
  · exact first
  · exact second

theorem Follows.forEach {body : α → Op (σ × List Bool) ε Unit} {plain : α → Op σ ε Unit}
    (same : ∀ a, Follows (body a) (plain a)) (list : List α) : Follows (forEach body list) (forEach plain list) := by
  induction list with
  | nil => exact follows_pure ()
  | cons a rest ih => exact (same a).bind fun _ => ih

end Follows

end Lib.Op
