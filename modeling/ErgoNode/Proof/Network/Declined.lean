import ErgoNode.Lib.Run
import ErgoNode.Network.PeerManager

/-!
# What is declined

A modifier is reported exactly as long as its last entry is fresh. The number of entries has no bound of its
own: a full table is rid of what has expired, and grows when nothing has.
-/

namespace ErgoNode.Proof.Network
open Lib DeclineTable

inductive DeclineCall where
  | decline (id : Digest32) (reason : String)
  | remove (id : Digest32)
  | clear
  | cleanup
  deriving DecidableEq

structure DeclineRun where
  table : DeclineTable
  now : Nat

namespace DeclineRun

def start (maxSize ttl : Nat) : DeclineRun := ⟨.new maxSize ttl, 0⟩

def perform (now : Nat) (table : DeclineTable) : DeclineCall → DeclineTable
  | .decline id reason => table.decline now id reason
  | .remove id => table.remove id
  | .clear => table.clear
  | .cleanup => table.cleanup now

def step (s : DeclineRun) (call : Nat × DeclineCall) : Option DeclineRun :=
  some ⟨perform (s.now + call.1) s.table call.2, s.now + call.1⟩

end DeclineRun

open DeclineRun

section Calls
variable {table : DeclineTable} {now : Nat} {call : DeclineCall} {id : Digest32} {entry : DeclineEntry}

def Cleans (table : DeclineTable) (call : DeclineCall) : Prop :=
  match call with
  | .decline _ _ => table.len ≥ table.maxSize
  | .cleanup => True
  | _ => False

@[simp] theorem ttl_perform : (perform now table call).ttl = table.ttl := by
  cases call with
  | decline id reason =>
      rw [perform, DeclineTable.decline]
      split <;> rfl
  | remove id => rfl
  | clear => rfl
  | cleanup => rfl

@[simp] theorem maxSize_perform : (perform now table call).maxSize = table.maxSize := by
  cases call with
  | decline id reason =>
      rw [perform, DeclineTable.decline]
      split <;> rfl
  | remove id => rfl
  | clear => rfl
  | cleanup => rfl

theorem lookup_cleanup : (table.cleanup now).entries.lookup id = some entry ↔
    table.entries.lookup id = some entry ∧ isFresh table.ttl now entry := Entries.lookup_retain

theorem lookup_perform : (perform now table call).entries.lookup id = some entry ↔
    (call = .decline id entry.reason ∧ entry.addedAt = now) ∨
      ((∀ reason, call ≠ .decline id reason) ∧ call ≠ .remove id ∧ call ≠ .clear ∧
        table.entries.lookup id = some entry ∧ (Cleans table call → isFresh table.ttl now entry)) := by
  cases call with
  | decline other reason =>
      have kept : (if table.len ≥ table.maxSize then table.cleanup now else table).entries.lookup id = some entry ↔
          table.entries.lookup id = some entry ∧ (Cleans table (.decline other reason) → isFresh table.ttl now entry) := by
        unfold Cleans
        split
        · next full => simp [lookup_cleanup, full]
        · next room => simp [room]
      rw [perform, DeclineTable.decline, Entries.lookup_insert_iff, kept]
      refine or_congr ?_ ?_
      · rw [DeclineCall.decline.injEq]
        constructor
        · rintro ⟨rfl, rfl⟩
          exact ⟨⟨rfl, rfl⟩, rfl⟩
        · rintro ⟨⟨rfl, rfl⟩, rfl⟩
          exact ⟨rfl, rfl⟩
      · constructor
        · rintro ⟨different, found⟩
          exact ⟨fun _ same => different (DeclineCall.decline.inj same).1.symm, nofun, nofun, found⟩
        · rintro ⟨different, -, -, found⟩
          exact ⟨fun same => different reason (same ▸ rfl), found⟩
  | remove other =>
      rw [perform, DeclineTable.remove, Entries.lookup_erase_iff]
      constructor
      · rintro ⟨different, found⟩
        exact .inr ⟨nofun, fun same => different (DeclineCall.remove.inj same).symm, nofun, found, nofun⟩
      · rintro (⟨same, -⟩ | ⟨-, different, -, found, -⟩)
        · cases same
        · exact ⟨fun same => different (same ▸ rfl), found⟩
  | clear => simp [perform, DeclineTable.clear]
  | cleanup => simp [perform, lookup_cleanup, Cleans]

end Calls

/-! ### What is reported -/

section Reported
variable {s : DeclineRun} {history : List (Nat × DeclineCall)} {call : Nat × DeclineCall} {id : Digest32} {age : Nat}

/-- The modifier was declined so long ago and neither removed nor cleared away since. -/
def DeclinedFor (history : List (Nat × DeclineCall)) (id : Digest32) (age : Nat) : Prop :=
  ∃ before wait reason after, history = before ++ (wait, .decline id reason) :: after ∧
    (∀ call ∈ after, call.2 ≠ .remove id ∧ call.2 ≠ .clear) ∧ (after.map Prod.fst).sum = age

theorem declinedFor_append_singleton : DeclinedFor (history ++ [call]) id age ↔
    (∃ reason, call.2 = .decline id reason) ∧ age = 0 ∨
      call.2 ≠ .remove id ∧ call.2 ≠ .clear ∧ ∃ earlier, DeclinedFor history id earlier ∧ age = earlier + call.1 := by
  constructor
  · rintro ⟨before, wait, reason, after, split, kept, rfl⟩
    cases after using List.reverseRecOn with
    | nil =>
        obtain ⟨-, same⟩ := List.append_inj' split rfl
        cases same
        exact .inl ⟨⟨reason, rfl⟩, rfl⟩
    | append_singleton after last =>
        rw [← List.cons_append, ← List.append_assoc] at split
        obtain ⟨rfl, same⟩ := List.append_inj' split rfl
        cases same
        obtain ⟨notRemoved, notCleared⟩ := kept call (by simp)
        refine .inr ⟨notRemoved, notCleared, _, ⟨before, wait, reason, after, rfl, ?_, rfl⟩, by simp⟩
        exact fun other member => kept other (List.mem_append_left _ member)
  · rintro (⟨⟨reason, declined⟩, rfl⟩ | ⟨notRemoved, notCleared, earlier, ⟨before, wait, reason, after, rfl, kept, rfl⟩, rfl⟩)
    · refine ⟨history, call.1, reason, [], ?_, nofun, rfl⟩
      rw [← declined]
    · refine ⟨before, wait, reason, after ++ [call], by simp, ?_, by simp⟩
      rw [List.forall_mem_append, List.forall_mem_singleton]
      exact ⟨kept, notRemoved, notCleared⟩

/-- The entries are of what was declined, and what was declined in time has an entry. -/
structure Recorded (s : DeclineRun) (history : List (Nat × DeclineCall)) : Prop where
  declined : ∀ id entry, s.table.entries.lookup id = some entry →
    entry.addedAt ≤ s.now ∧ DeclinedFor history id (s.now - entry.addedAt)
  entered : ∀ id age, DeclinedFor history id age → age < s.table.ttl →
    ∃ entry, s.table.entries.lookup id = some entry ∧ s.now - entry.addedAt ≤ age

theorem Recorded.start (maxSize ttl : Nat) : Recorded (.start maxSize ttl) [] where
  declined _ _ found := nomatch found
  entered _ _ := by
    rintro ⟨before, wait, reason, after, split, -⟩
    simp at split

theorem Recorded.step (recorded : Recorded s history) {t : DeclineRun} (taken : step s call = some t) :
    Recorded t (history ++ [call]) := by
  cases taken
  constructor
  · intro id entry found
    rw [lookup_perform] at found
    rcases found with ⟨declined, now⟩ | ⟨-, notRemoved, notCleared, old, -⟩
    · rw [now]
      exact ⟨le_refl _, declinedFor_append_singleton.mpr (.inl ⟨⟨_, declined⟩, Nat.sub_self _⟩)⟩
    · obtain ⟨earlier, since⟩ := recorded.declined id entry old
      refine ⟨Nat.le_add_right_of_le earlier, declinedFor_append_singleton.mpr ?_⟩
      refine .inr ⟨notRemoved, notCleared, _, since, ?_⟩
      dsimp only
      omega
  · intro id age since fresh
    rw [ttl_perform] at fresh
    simp only [lookup_perform]
    by_cases again : ∃ reason, call.2 = .decline id reason
    · obtain ⟨reason, declined⟩ := again
      refine ⟨⟨s.now + call.1, reason⟩, .inl ⟨declined, rfl⟩, ?_⟩
      rw [Nat.sub_self]
      exact Nat.zero_le age
    · rw [declinedFor_append_singleton] at since
      rcases since with ⟨declined, -⟩ | ⟨notRemoved, notCleared, earlier, since, rfl⟩
      · exact absurd declined again
      · obtain ⟨entry, old, recent⟩ := recorded.entered id earlier since (by omega)
        refine ⟨entry, .inr ⟨not_exists.mp again, notRemoved, notCleared, old, fun _ => ?_⟩, by omega⟩
        rw [isFresh, decide_eq_true_iff]
        omega

/-- A modifier is reported when it was declined less than the time to live ago, and neither removed nor
cleared away since. -/
def Reported (s : DeclineRun) (history : List (Nat × DeclineCall)) : Prop :=
  ∀ id wait, (s.table.isDeclined (s.now + wait) id).isSome ↔
    ∃ age, DeclinedFor history id age ∧ age + wait < s.table.ttl

theorem isSome_isDeclined {table : DeclineTable} {now : Nat} : (table.isDeclined now id).isSome ↔
    ∃ entry, table.entries.lookup id = some entry ∧ isFresh table.ttl now entry := by
  unfold isDeclined
  cases table.entries.lookup id with
  | none => simp
  | some entry => by_cases fresh : isFresh table.ttl now entry <;> simp [fresh]

theorem Recorded.reported (recorded : Recorded s history) : Reported s history := by
  intro id wait
  rw [isSome_isDeclined]
  simp only [isFresh, decide_eq_true_iff]
  constructor
  · rintro ⟨entry, found, fresh⟩
    obtain ⟨earlier, since⟩ := recorded.declined id entry found
    exact ⟨_, since, by omega⟩
  · rintro ⟨age, since, fresh⟩
    obtain ⟨entry, found, recent⟩ := recorded.entered id age since (by omega)
    exact ⟨entry, found, by omega⟩

end Reported

/-! ### How many entries there are -/

section Bounded
variable {s t : DeclineRun} {call : Nat × DeclineCall}

def Bounded (s : DeclineRun) : Prop := s.table.len ≤ s.table.maxSize

/-- A modifier is declined while the table is not full, or is still declined, or takes the place of an entry
that has expired. -/
def HasRoom (s : DeclineRun) (call : Nat × DeclineCall) : Prop :=
  ∀ id reason, call.2 = .decline id reason → s.table.len < s.table.maxSize ∨
    (∃ entry, s.table.entries.lookup id = some entry ∧ isFresh s.table.ttl (s.now + call.1) entry) ∨
    ∃ other entry, s.table.entries.lookup other = some entry ∧ ¬ isFresh s.table.ttl (s.now + call.1) entry

theorem len_cleanup_le (table : DeclineTable) (now : Nat) : (table.cleanup now).len ≤ table.len :=
  List.length_filter_le ..

theorem len_decline {table : DeclineTable} {now : Nat} {id : Digest32} {reason : String}
    (bounded : table.len ≤ table.maxSize) : (table.decline now id reason).len ≤ table.maxSize ↔
      table.len < table.maxSize ∨
        (∃ entry, table.entries.lookup id = some entry ∧ isFresh table.ttl now entry) ∨
        ∃ other entry, table.entries.lookup other = some entry ∧ ¬ isFresh table.ttl now entry := by
  unfold DeclineTable.decline
  by_cases full : table.len ≥ table.maxSize
  · have less : (table.cleanup now).len < table.len ↔
        ∃ other entry, table.entries.lookup other = some entry ∧ ¬ isFresh table.ttl now entry :=
      Entries.length_retain_lt_iff
    have present : id ∈ (table.cleanup now).entries ↔
        ∃ entry, table.entries.lookup id = some entry ∧ isFresh table.ttl now entry := by
      rw [Entries.mem_iff]
      exact exists_congr fun entry => lookup_cleanup
    have size : ((table.cleanup now).entries.insert id ⟨now, reason⟩).entries.length =
        if id ∈ (table.cleanup now).entries then (table.cleanup now).len else (table.cleanup now).len + 1 :=
      Entries.length_insert
    have shrunk := len_cleanup_le table now
    rw [if_pos full, ← less, ← present]
    change ((table.cleanup now).entries.insert id ⟨now, reason⟩).entries.length ≤ _ ↔ _
    rw [size]
    split
    · next there => exact iff_of_true (by omega) (.inr (.inl there))
    · next missing =>
        simp only [missing, false_or]
        omega
  · have size : (table.entries.insert id ⟨now, reason⟩).entries.length =
        if id ∈ table.entries then table.len else table.len + 1 := Entries.length_insert
    rw [if_neg full]
    refine iff_of_true ?_ (.inl (Nat.not_le.mp full))
    change (table.entries.insert id ⟨now, reason⟩).entries.length ≤ _
    rw [size]
    split <;> omega

theorem bounded_step_iff (bounded : Bounded s) (taken : step s call = some t) : Bounded t ↔ HasRoom s call := by
  cases taken
  obtain ⟨wait, call⟩ := call
  unfold Bounded HasRoom
  rw [maxSize_perform]
  cases call with
  | decline id reason =>
      rw [perform, len_decline bounded]
      constructor
      · intro room other text same
        cases same
        exact room
      · exact fun room => room id reason rfl
  | remove id =>
      refine iff_of_true ?_ nofun
      have shorter : (s.table.entries.erase id).entries.length ≤ s.table.len := (List.kerase_sublist ..).length_le
      exact shorter.trans bounded
  | clear => exact iff_of_true (Nat.zero_le _) nofun
  | cleanup => exact iff_of_true ((len_cleanup_le _ _).trans bounded) nofun

end Bounded

theorem always_recorded (maxSize ttl : Nat) (calls : List (Nat × DeclineCall)) :
    Always (recorded step) (fun s => Recorded s.1 s.2) (.start maxSize ttl, []) calls := by
  refine always_of_step ?_ (.start maxSize ttl)
  intro s call t known taken
  obtain ⟨next, moved, rfl⟩ := recorded_eq_some taken
  exact known.step moved

/-- Every run reports what it should. The table holds no more than it may exactly when there is room whenever
something is declined. -/
theorem always_declined_iff (maxSize ttl : Nat) (calls : List (Nat × DeclineCall)) :
    Always (recorded step) (fun s => Reported s.1 s.2) (.start maxSize ttl, []) calls ∧
      (Always (recorded step) (fun s => Bounded s.1) (.start maxSize ttl, []) calls ↔
        Along (recorded step) (fun s call => HasRoom s.1 call) (.start maxSize ttl, []) calls) := by
  constructor
  · exact fun s visited => (always_recorded maxSize ttl calls s visited).reported
  · obtain ⟨last, ran⟩ : ∃ last, run (recorded step) (.start maxSize ttl, []) calls = some last :=
      exists_run (fun _ _ => rfl) _ _
    refine always_iff_along ?_ ?_ id (Nat.zero_le _) ran
    · intro s call t bounded room taken
      obtain ⟨next, moved, rfl⟩ := recorded_eq_some taken
      exact (bounded_step_iff bounded moved).mpr room
    · intro s call t bounded taken still
      obtain ⟨next, moved, rfl⟩ := recorded_eq_some taken
      exact (bounded_step_iff bounded moved).mp still

/-! ### Samples -/

def crowdedCalls : List (Nat × DeclineCall) :=
  [(0, .decline (.filled 1) "invalid"), (0, .decline (.filled 2) "invalid")]

theorem crowdedCalls_not_bounded :
    ¬ Always (recorded step) (fun s => Bounded s.1 ∧ Reported s.1 s.2) (.start 1 60, []) crowdedCalls := by
  intro always
  obtain ⟨last, ran⟩ : ∃ last, run (recorded step) (.start 1 60, []) crowdedCalls = some last :=
    exists_run (fun _ _ => rfl) _ _
  have bounded := (always last ⟨crowdedCalls, List.prefix_refl _, ran⟩).1
  cases ran
  exact absurd bounded (by unfold Bounded; decide)

end ErgoNode.Proof.Network
