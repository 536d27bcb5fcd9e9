import Mathlib.Data.List.Basic

/-!
# Rosters

Tasks hold names, each for some time. A roster is told when a task begins to hold a name and when it ends, and
lists the name or takes it off, whoever else may hold it. So it lists only names that are held; and where no
name is held twice, it lists all of them. The notices may be on their way for a while, and a roster may drop
names that are held.
-/

namespace Lib

/-- How many tasks hold a name, and whether the roster lists it once all notices have come. -/
structure Roster where
  held : Nat
  listed : Bool

namespace Roster

inductive Moves (drops : Prop) (before after : Roster) : Prop where
  | kept (held : after.held = before.held) (listed : after.listed = before.listed)
  | entered (held : after.held = before.held + 1) (listed : after.listed = true)
  | left (held : before.held = after.held + 1) (listed : after.listed = false)
  | dropped (own : drops) (held : after.held = before.held) (listed : after.listed = false)

/-- A listed name is held. -/
def Sound (roster : Roster) : Prop := roster.listed = true → 0 < roster.held

/-- A name is listed as often as it is held. -/
def Exact (roster : Roster) : Prop := roster.held = roster.listed.toNat

variable {before after : Roster} {drops : Prop}

theorem Sound.moves (sound : before.Sound) (moves : Moves drops before after) : after.Sound := by
  intro listed
  cases moves with
  | kept held same => exact held ▸ sound (same ▸ listed)
  | entered held _ => omega
  | left _ unlisted | dropped _ _ unlisted => exact absurd listed (by simp [unlisted])

theorem Exact.moves (exact : before.Exact) (moves : Moves drops before after) (stays : ¬ drops) (once : after.held ≤ 1) :
    after.Exact := by
  unfold Exact at exact ⊢
  cases moves with
  | kept held same => rw [held, same, exact]
  | entered held listed =>
      rw [listed, Bool.toNat_true]
      omega
  | left held unlisted =>
      have few := before.listed.toNat_le
      rw [unlisted, Bool.toNat_false]
      omega
  | dropped own => exact absurd own stays

end Roster

/-! ### Notices -/

section Notices
variable {N : Type} [DecidableEq N] {name : N} {listed : Bool} {more notices : List (N × Bool)} {notice : N × Bool}

/-- Whether a name is listed when the notices have come. -/
def settled (name : N) (listed : Bool) (notices : List (N × Bool)) : Bool :=
  notices.foldl (fun listed notice => if notice.1 = name then notice.2 else listed) listed

@[simp] theorem settled_nil : settled name listed [] = listed := rfl

@[simp] theorem settled_cons : settled name listed (notice :: more) =
    settled name (if notice.1 = name then notice.2 else listed) more := rfl

theorem settled_of_unlisted (there : settled name false notices = true) : settled name listed notices = true := by
  induction notices generalizing listed with
  | nil => cases there
  | cons notice rest ih =>
      rw [settled_cons] at there ⊢
      by_cases same : notice.1 = name
      · rwa [if_pos same] at there ⊢
      · rw [if_neg same] at there ⊢
        exact ih there

theorem settled_append : settled name listed (notices ++ more) = settled name (settled name listed notices) more :=
  List.foldl_append

end Notices

/-! ### Tasks -/

namespace Roster
variable {A N : Type} [DecidableEq N] (nameOf : A → N) (holds : A → Bool)

def heldBy (tasks : List A) (name : N) : Nat := tasks.countP fun task => decide (nameOf task = name) && holds task

variable {nameOf holds} {drops : Prop} {tasks : List A} {task next : A} {i : Nat} {name : N} {listed listed' : Bool}

theorem heldBy_pos_iff : 0 < heldBy nameOf holds tasks name ↔ ∃ task ∈ tasks, nameOf task = name ∧ holds task = true := by
  simp only [heldBy, List.countP_pos_iff, Bool.and_eq_true, decide_eq_true_iff]

theorem Exact.listed_iff (exact : Exact ⟨heldBy nameOf holds tasks name, listed⟩) :
    listed = true ↔ ∃ task ∈ tasks, nameOf task = name ∧ holds task = true := by
  rw [← heldBy_pos_iff, show heldBy nameOf holds tasks name = listed.toNat from exact]
  cases listed <;> simp

theorem heldBy_append (more : List A) : heldBy nameOf holds (tasks ++ more) name =
    heldBy nameOf holds tasks name + heldBy nameOf holds more name := List.countP_append

theorem heldBy_set (here : tasks[i]? = some task) (same : nameOf next = nameOf task) :
    heldBy nameOf holds (tasks.set i next) name + (if nameOf task = name ∧ holds task then 1 else 0) =
      heldBy nameOf holds tasks name + if nameOf task = name ∧ holds next then 1 else 0 := by
  obtain ⟨within, there⟩ := List.getElem?_eq_some_iff.mp here
  have counted := List.boole_getElem_le_countP (p := fun task => decide (nameOf task = name) && holds task) within
  unfold heldBy
  rw [List.countP_set within]
  simp only [there, same, Bool.and_eq_true, decide_eq_true_iff] at counted ⊢
  omega

theorem moves_set {notice : Option Bool} (here : tasks[i]? = some task) (same : nameOf next = nameOf task)
    (before : holds task = notice.elim (holds task) not) (after : holds next = notice.getD (holds task))
    (told : listed' = if nameOf task = name then notice.getD listed else listed) :
    Moves drops ⟨heldBy nameOf holds tasks name, listed⟩ ⟨heldBy nameOf holds (tasks.set i next) name, listed'⟩ := by
  have counted := @heldBy_set _ _ _ nameOf holds tasks task next i name here same
  by_cases named : nameOf task = name
  · rw [if_pos named] at told
    cases notice with
    | none =>
        refine .kept ?_ told
        simpa [named, after] using counted
    | some arrives =>
        cases arrives with
        | true =>
            have idle : holds task = false := before
            refine .entered ?_ told
            simpa [named, after, idle] using counted
        | false =>
            have holding : holds task = true := before
            refine .left ?_ told
            simpa [named, after, holding] using counted.symm
  · rw [if_neg named] at told
    refine .kept ?_ told
    simpa [named] using counted

theorem moves_append {more : List A} (idle : ∀ task ∈ more, holds task = false) :
    Moves drops ⟨heldBy nameOf holds tasks name, listed⟩ ⟨heldBy nameOf holds (tasks ++ more) name, listed⟩ := by
  have none : heldBy nameOf holds more name = 0 := by
    refine List.countP_eq_zero.mpr fun task member => ?_
    simp [idle task member]
  refine .kept ?_ rfl
  simp only [heldBy_append, none, Nat.add_zero]

end Roster
end Lib
