import ErgoNode.Lib.Threads
import ErgoNode.Mining.Candidate
import ErgoNode.Proof.History.Effect
import ErgoNode.Proof.History.Selection
import ErgoNode.Proof.Sample
import ErgoNode.State.Reading

/-!
# The parents of candidates

A kept candidate has the right height as long as the best header keeps its height. The best header can change
and keep it, and it can change while a request is between reading its height and reading its id.
-/

namespace ErgoNode.Proof.Mining
open Lib
open ErgoNode.Proof.History (HeaderCall State)
open Reading (BestHeader HeaderAccesses)

/-! ### Header calls, one access after the other -/

section HeaderCalls
variable {sr : SigmaRust} {st after : State}

def headerAccesses (sr : SigmaRust) : HeaderCall → HeaderAccesses (Option BestHeader)
  | .appendHeader header => Reading.appendHeaderInternal sr header none
  | .appendHeaderWithBytes header rawBytes => Reading.appendHeaderInternal sr header (some rawBytes)
  | .appendHeadersBatched headers => Reading.appendHeadersBatched headers

/-- The fields are written last. -/
def writeFields : Option BestHeader → Op State StateError Unit
  | some best => modify fun st =>
      { st with mem := st.mem.withBestHeader best.id best.height best.cumulativeDifficulty }
  | none => pure ()

/-- What is there after a call that nothing comes between. -/
def afterCall (call : HeaderAccesses (Option BestHeader)) (st : State) : State :=
  ((call.together >>= writeFields).exec st).2

section Bind
variable {α : Type} {x : HeaderAccesses α} {a : α} {error : StateError} {f : α → HeaderAccesses (Option BestHeader)}

theorem afterCall_bind (found : x.together.exec st = (.ok a, after)) : afterCall (x >>= f) st = afterCall (f a) after := by
  unfold afterCall
  rw [Op.exec_bind, Accesses.exec_together_bind, Op.exec_bind_of_ok found, ← Op.exec_bind]

theorem afterCall_bind_error (failed : x.together.exec st = (.error error, after)) : afterCall (x >>= f) st = after := by
  unfold afterCall
  rw [Op.exec_bind, Accesses.exec_together_bind, Op.exec_bind_of_error failed]

end Bind

theorem together_contains (id : BlockId) (st : State) :
    (Reading.contains id).together.exec st = (.ok (HeaderStore.contains st.db id), st) := rfl

theorem together_writeBatch (batch : WriteBatch) (st : State) :
    (Reading.writeBatch batch).together.exec st = (OnDatabase.writeBatch batch).exec st :=
  Accesses.exec_together_once _ _

theorem together_hasParent (header : Header) (st : State) : (Reading.hasParent header).together.exec st =
    (.ok (if header.height > 2 then HeaderStore.contains st.db header.parentId else true), st) := by
  unfold Reading.hasParent
  split <;> rfl

theorem together_parentCumulative (header : Header) (st : State) :
    (Reading.parentCumulative header).together.exec st = (.ok (ErgoNode.History.parentCumulative st.db header), st) := by
  unfold Reading.parentCumulative
  split
  · next low =>
      unfold ErgoNode.History.parentCumulative
      rw [if_pos low]
      rfl
  · rfl

theorem afterCall_write (batch : WriteBatch) (best : Option BestHeader) (st : State) :
    afterCall (do Reading.writeBatch batch; return best) st =
      if Database.writeFails st.db.faults then { st with db.faults := st.db.faults.tail }
      else afterCall (return best) { st with db := ⟨st.db.columns.write batch, st.db.faults.tail⟩ } := by
  have wrote := together_writeBatch batch st
  cases fails : Database.writeFails st.db.faults with
  | true =>
      rw [OnDatabase.exec_writeBatch_of_fails fails] at wrote
      exact afterCall_bind_error wrote
  | false =>
      rw [OnDatabase.exec_writeBatch fails] at wrote
      exact afterCall_bind wrote

theorem afterCall_selectChain (sr : SigmaRust) (batch : WriteBatch) (id : BlockId) (height cumulative : Nat) (st : State) :
    afterCall (Reading.selectChain batch id height cumulative) st =
      ((ErgoNode.History.selectChain sr batch id height cumulative).exec st).2 := by
  have best : (Accesses.once (do return (← get).mem.bestCumulativeDifficulty) : HeaderAccesses Nat).together.exec st =
      (.ok st.mem.bestCumulativeDifficulty, st) := rfl
  refine (afterCall_bind best).trans ?_
  cases fails : Database.writeFails st.db.faults with
  | true =>
      rw [History.exec_selectChain_of_fails sr fails]
      split <;> rw [afterCall_write, if_pos fails]
  | false =>
      rw [History.exec_selectChain sr fails]
      unfold History.chainSelected
      split <;> rw [afterCall_write, if_neg (ne_true_of_eq_false fails)] <;> rfl

theorem afterCall_appendHeaderInternal (sr : SigmaRust) (header : Header) (rawBytes : Option Bytes) (st : State) :
    afterCall (Reading.appendHeaderInternal sr header rawBytes) st =
      ((ErgoNode.History.appendHeaderInternal sr header rawBytes).exec st).2 := by
  refine (afterCall_bind (together_contains header.id st)).trans ?_
  rw [ErgoNode.History.appendHeaderInternal, Op.exec_bind_of_ok (Op.exec_get st)]
  by_cases stored : HeaderStore.contains st.db header.id
  · rw [if_pos stored, if_pos stored]
    rfl
  · rw [if_neg stored, if_neg stored]
    refine (afterCall_bind (together_hasParent header st)).trans ?_
    by_cases orphan : header.height > 2 ∧ !HeaderStore.contains st.db header.parentId
    · rw [if_pos orphan.1, if_pos orphan.2, if_pos orphan]
      rfl
    · have linked : ¬ (!(if header.height > 2 then HeaderStore.contains st.db header.parentId else true)) = true := by
        split <;> simp_all
      rw [if_neg orphan, if_neg linked]
      refine (afterCall_bind (together_parentCumulative header st)).trans ?_
      cases encoded : ErgoNode.History.headerBatch sr header rawBytes with
      | error e => exact afterCall_bind_error rfl
      | ok batch =>
          refine (afterCall_bind (a := batch) rfl).trans ?_
          rw [Op.exec_bind_of_ok (Op.exec_ofExcept _ st)]
          have wrote := together_writeBatch batch st
          cases fails : Database.writeFails st.db.faults with
          | true =>
              have lost := OnDatabase.exec_writeBatch_of_fails fails st.mem batch
              rw [Op.exec_bind_of_error lost]
              exact afterCall_bind_error (wrote.trans lost)
          | false =>
              have stored := OnDatabase.exec_writeBatch fails st.mem batch
              rw [Op.exec_bind_of_ok stored]
              exact (afterCall_bind (wrote.trans stored)).trans (afterCall_selectChain ..)

theorem together_addHeaderToBatch (acc : ErgoNode.History.HeaderBatch) (item : Header × Bytes) (st : State) :
    (Reading.addHeaderToBatch acc item).together.exec st = (ErgoNode.History.addHeaderToBatch st.db acc item, st) := by
  obtain ⟨header, rawBytes⟩ := item
  unfold Reading.addHeaderToBatch ErgoNode.History.addHeaderToBatch
  dsimp only
  rw [Accesses.exec_together_bind, Op.exec_bind_of_ok (together_contains header.id st)]
  by_cases stored : HeaderStore.contains st.db header.id
  · rw [if_pos stored, if_pos stored]
    rfl
  · rw [if_neg stored, if_neg stored, Accesses.exec_together_bind, Op.exec_bind_of_ok (together_hasParent header st)]
    have same : ((!decide (header.parentId ∈ acc.headerIds)) = true ∧
        (!(if header.height > 2 then HeaderStore.contains st.db header.parentId else true)) = true) ↔
        header.height > 2 ∧ (!decide (header.parentId ∈ acc.headerIds)) = true ∧
          (!HeaderStore.contains st.db header.parentId) = true := by
      split <;> simp [*]
    by_cases orphan : header.height > 2 ∧ (!decide (header.parentId ∈ acc.headerIds)) = true ∧
        (!HeaderStore.contains st.db header.parentId) = true
    · rw [if_pos orphan, if_pos (same.mpr orphan)]
      rfl
    · rw [if_neg orphan, if_neg (same.not.mpr orphan)]
      by_cases together : header.height > 2 ∧ decide (header.parentId ∈ acc.headerIds) = true
      · rw [if_pos together, if_pos together]
        rfl
      · rw [if_neg together, if_neg together, Accesses.exec_together_bind,
          Op.exec_bind_of_ok (together_parentCumulative header st)]
        rfl

theorem afterCall_appendHeadersBatched (sr : SigmaRust) (items : List (Header × Bytes)) (st : State) :
    afterCall (Reading.appendHeadersBatched items) st =
      ((ErgoNode.History.appendHeadersBatched sr items).exec st).2 := by
  cases items with
  | nil => rfl
  | cons first rest =>
      refine (afterCall_bind (together_parentCumulative first.1 st)).trans ?_
      have folded := Accesses.exec_together_foldlM (fun acc item => together_addHeaderToBatch acc item st)
        (first :: rest) (ErgoNode.History.HeaderBatch.start st.db first.1)
      rw [ErgoNode.History.appendHeadersBatched, Op.exec_bind_of_ok (Op.exec_get st)]
      cases added : (first :: rest).foldlM (ErgoNode.History.addHeaderToBatch st.db)
          (ErgoNode.History.HeaderBatch.start st.db first.1) with
      | error e =>
          rw [added] at folded
          exact afterCall_bind_error folded
      | ok acc =>
          rw [added] at folded
          rw [Op.exec_bind_of_ok (Op.exec_ofExcept _ st)]
          exact (afterCall_bind folded).trans (afterCall_selectChain ..)

/-- A header call that nothing comes between does all that it does at once. -/
theorem afterCall_headerAccesses (sr : SigmaRust) (call : HeaderCall) (st : State) :
    afterCall (headerAccesses sr call) st = ((call.exec sr).exec st).2 := by
  cases call with
  | appendHeader header => exact afterCall_appendHeaderInternal sr header none st
  | appendHeaderWithBytes header rawBytes => exact afterCall_appendHeaderInternal sr header (some rawBytes) st
  | appendHeadersBatched headers => exact afterCall_appendHeadersBatched sr headers st

/-! What they can end with, whatever other calls do meanwhile. -/

/-- The new best header is one of these. -/
def AmongHeaders (headers : List Header) (best : Option BestHeader) : Prop :=
  ∀ chosen ∈ best, ∃ header ∈ headers, chosen.id = header.id ∧ chosen.height = header.height

theorem AmongHeaders.mono {headers more : List Header} {best : Option BestHeader} (among : AmongHeaders headers best)
    (subset : headers ⊆ more) : AmongHeaders more best :=
  fun chosen is => (among chosen is).imp fun _ known => ⟨subset known.1, known.2⟩

section Leads
variable {headers : List Header} {header : Header}

abbrev LeadsTo {α : Type} (x : HeaderAccesses α) (P : α → Prop) : Prop := x.Leads OnDatabase.mem P

theorem leads_contains (id : BlockId) : LeadsTo (Reading.contains id) fun _ => True :=
  Accesses.leads_once fun _ => rfl

theorem leads_hasParent (header : Header) : LeadsTo (Reading.hasParent header) fun _ => True := by
  unfold Reading.hasParent
  split
  · exact leads_contains _
  · trivial

theorem leads_parentCumulative (header : Header) : LeadsTo (Reading.parentCumulative header) fun _ => True := by
  unfold Reading.parentCumulative
  split
  · trivial
  · exact Accesses.leads_once fun _ => rfl

theorem leads_writeBatch (batch : WriteBatch) : LeadsTo (Reading.writeBatch batch) fun _ => True :=
  Accesses.leads_once fun _ => rfl

theorem leads_selectChain (batch : WriteBatch) (member : header ∈ headers) (cumulative : Nat) :
    LeadsTo (Reading.selectChain batch header.id header.height cumulative) (AmongHeaders headers) := by
  refine (Accesses.leads_once fun _ => rfl).bind fun best _ => ?_
  split
  · refine (leads_writeBatch _).bind fun _ _ => ?_
    rintro _ ⟨⟩
    exact ⟨header, member, rfl, rfl⟩
  · exact (leads_writeBatch _).bind fun _ _ => nofun

theorem leads_appendHeaderInternal (sr : SigmaRust) (rawBytes : Option Bytes) :
    LeadsTo (Reading.appendHeaderInternal sr header rawBytes) (AmongHeaders [header]) := by
  refine (leads_contains _).bind fun stored _ => ?_
  split
  · exact nofun
  · refine (leads_hasParent _).bind fun parentStored _ => ?_
    split
    · trivial
    · refine (leads_parentCumulative _).bind fun parent _ => ?_
      refine (Accesses.leads_ofExcept (P := fun _ => True) fun _ _ => trivial).bind fun batch _ => ?_
      exact (leads_writeBatch _).bind fun _ _ => leads_selectChain _ (List.mem_singleton_self header) _

/-- The last header so far is one of these. -/
def LastAmong (headers : List Header) (acc : ErgoNode.History.HeaderBatch) : Prop :=
  ∃ header ∈ headers, acc.finalHeaderId = header.id ∧ acc.finalHeight = header.height

theorem leads_addHeaderToBatch {acc : ErgoNode.History.HeaderBatch} (last : LastAmong headers acc)
    {item : Header × Bytes} (member : item.1 ∈ headers) :
    LeadsTo (Reading.addHeaderToBatch acc item) (LastAmong headers) := by
  refine (leads_contains _).bind fun stored _ => ?_
  split
  · exact last
  · refine (leads_hasParent _).bind fun parentStored _ => ?_
    split
    · trivial
    · dsimp only
      split
      · exact ⟨item.1, member, rfl, rfl⟩
      · exact (leads_parentCumulative _).bind fun parent _ => ⟨item.1, member, rfl, rfl⟩

theorem leads_headerAccesses (sr : SigmaRust) (call : HeaderCall) :
    LeadsTo (headerAccesses sr call) (AmongHeaders call.headers) := by
  cases call with
  | appendHeader header => exact leads_appendHeaderInternal sr none
  | appendHeaderWithBytes header rawBytes => exact leads_appendHeaderInternal sr (some rawBytes)
  | appendHeadersBatched headers =>
      cases headers with
      | nil => exact nofun
      | cons first rest =>
          refine (leads_parentCumulative _).bind fun start _ => ?_
          refine (Accesses.leads_foldlM (R := LastAmong ((first :: rest).map Prod.fst)) ?_ ?_).bind ?_
          · exact fun acc last item member => leads_addHeaderToBatch last (List.mem_map_of_mem member)
          · exact ⟨first.1, List.mem_cons_self, rfl, rfl⟩
          · rintro acc ⟨header, member, id, height⟩
            rw [id, height]
            exact leads_selectChain _ member _

end Leads

end HeaderCalls

/-! ### Header calls and requests

The cached candidate, the fields of the history and the database have a lock each, and a request or a header call
holds none of them from one access to the next. Only while a request reads the best height for the candidate that it
has found it keeps the lock on the cache. -/

inductive CandidateCall where
  | getOrGenerate
  | setRewardAddress (address : String)
  | invalidate
  | headers (call : HeaderCall)

inductive CandidatePhase where
  | called (call : CandidateCall)
  -- `get_or_generate`
  | generating
  | addressRead
  | heightRead (height : Nat)
  | generated (candidate : BlockCandidate)
  | returned (result : MiningResult BlockCandidate)
  -- `set_reward_address`
  | addressSet
  -- a header call, and the fields of the new best header
  | appending (rest : HeaderAccesses (Option BestHeader))
  | selected (best : BestHeader)
  | idWritten (best : BestHeader)
  | heightWritten (best : BestHeader)
  | done

def CandidatePhase.ofAccesses : HeaderAccesses (Option BestHeader) → CandidatePhase
  | .done (some best) => .selected best
  | .done none | .failed _ => .done
  | rest => .appending rest

structure CandidateState where
  history : State
  generator : CandidateGenerator
  headers : List Header

namespace CandidateState
variable (sr : SigmaRust)

def takeCall (s : CandidateState) (inputs : CandidateInputs) : CandidateCall → CandidateState × CandidatePhase
  | .getOrGenerate =>
      match s.generator.cachedCandidate.filter (CandidateGenerator.isFresh s.history.mem inputs.now) with
      | some cached => (s, .returned (.ok cached))
      | none => (s, .generating)
  | .setRewardAddress address => ({ s with generator.rewardAddress := some address }, .addressSet)
  | .invalidate => ({ s with generator := s.generator.invalidate }, .done)
  | .headers call => ({ s with headers := s.headers ++ call.headers }, .ofAccesses (headerAccesses sr call))

def advance (inputs : CandidateInputs) (s : CandidateState) : CandidatePhase → CandidateState × CandidatePhase
  | .called call => s.takeCall sr inputs call
  | .generating =>
      match s.generator.rewardAddress with
      | none => (s, .returned (.error .noRewardAddress))
      | some _ => (s, .addressRead)
  | .addressRead => (s, .heightRead s.history.mem.bestHeight)
  -- the id of the best header is read after its height
  | .heightRead height =>
      (s, .generated (CandidateGenerator.candidateFor sr { s.history.mem with bestHeight := height } inputs))
  | .generated candidate => ({ s with generator.cachedCandidate := some candidate }, .returned (.ok candidate))
  | .returned result => (s, .returned result)
  | .addressSet => ({ s with generator := s.generator.invalidate }, .done)
  | .appending rest => ({ s with history := (rest.step s.history).2 }, .ofAccesses (rest.step s.history).1)
  | .selected best => ({ s with history.mem.bestHeaderId := some best.id }, .idWritten best)
  | .idWritten best => ({ s with history.mem.bestHeight := best.height }, .heightWritten best)
  | .heightWritten best => ({ s with history.mem.bestCumulativeDifficulty := best.cumulativeDifficulty }, .done)
  | .done => (s, .done)

end CandidateState

abbrev CandidateRun := Threads CandidateState CandidatePhase

namespace CandidateRun

abbrev Action := Threads.Action CandidateCall CandidateInputs

def start (history : State) (headers : List Header) : CandidateRun := ⟨⟨history, .new, headers⟩, []⟩

/-- Any calls, in any interleaving of their steps. -/
def step (sr : SigmaRust) (run : CandidateRun) (action : Action) : Option CandidateRun :=
  Threads.step CandidatePhase.called (CandidateState.advance sr) run action

/-- The run comes to what the header call does all at once, if nothing comes between its steps. -/
def DoesAtOnce (sr : SigmaRust) (run : CandidateRun) (call : HeaderCall) (inputs : CandidateInputs) : Prop :=
  ∃ count, Lib.run (CandidateRun.step sr) run
    (.call (.headers call) :: List.replicate count (.advance run.calls.length inputs)) =
      some ⟨{ run.shared with
        history := ((call.exec sr).exec run.shared.history).2
        headers := run.shared.headers ++ call.headers }, run.calls ++ [.done]⟩

end CandidateRun

theorem alone_headerAccesses (sr : SigmaRust) (inputs : CandidateInputs) (rest : HeaderAccesses (Option BestHeader))
    (s : CandidateState) : ∃ count, Threads.alone (CandidateState.advance sr) inputs count s (.ofAccesses rest) =
      ({ s with history := afterCall rest s.history }, .done) := by
  induction rest generalizing s with
  | done best =>
      cases best with
      | none => exact ⟨0, rfl⟩
      | some best => exact ⟨3, rfl⟩
  | failed error => exact ⟨0, rfl⟩
  | access move next ih =>
      obtain ⟨count, reached⟩ := ih s.history { s with history := move s.history }
      exact ⟨count + 1, reached⟩

theorem doesAtOnce (sr : SigmaRust) (run : CandidateRun) (call : HeaderCall) (inputs : CandidateInputs) :
    run.DoesAtOnce sr call inputs := by
  obtain ⟨count, reached⟩ := alone_headerAccesses sr inputs (headerAccesses sr call)
    { run.shared with headers := run.shared.headers ++ call.headers }
  rw [afterCall_headerAccesses] at reached
  refine ⟨count + 1, ?_⟩
  have entered : CandidateRun.step sr run (.call (.headers call)) =
    some ⟨run.shared, run.calls ++ [.called (.headers call)]⟩ := rfl
  rw [run_cons, entered, Option.bind_some]
  have here : (run.calls ++ [.called (.headers call)])[run.calls.length]? = some (CandidatePhase.called (.headers call)) :=
    List.getElem?_concat_length
  refine (Threads.run_alone here inputs (count + 1)).trans ?_
  have first : CandidateState.advance sr inputs run.shared (.called (.headers call)) =
    ({ run.shared with headers := run.shared.headers ++ call.headers }, .ofAccesses (headerAccesses sr call)) := rfl
  rw [Threads.alone_succ, first, reached, List.set_append_right _ _ (Nat.le_refl _), Nat.sub_self]
  rfl

/-! ### Candidates for the best header -/

/-- The best header is one that came, and its height is the best height. -/
def BestKnown (s : CandidateState) : Prop :=
  History.bestPlace s.history.mem = (none, 0) ∨
    ∃ header ∈ s.headers, History.bestPlace s.history.mem = (some header.id, header.height)

def IsNext (s : CandidateState) (candidate : BlockCandidate) : Prop :=
  BestKnown s ∧ candidate.parentId = s.history.mem.bestHeaderId ∧ candidate.height = s.history.mem.bestHeight + 1

/-- A candidate that is returned with this step is for the block after the best header. -/
def ForBest (sr : SigmaRust) (run : CandidateRun) : CandidateRun.Action → Prop
  | .call _ => True
  | .advance index inputs => ∀ phase candidate, run.calls[index]? = some phase → phase ≠ .returned (.ok candidate) →
      (run.shared.advance sr inputs phase).2 = .returned (.ok candidate) → IsNext run.shared candidate

namespace CandidatePhase

def unwritten : CandidatePhase → Option Nat
  | .idWritten best => some best.height
  | _ => none

def isReading : CandidatePhase → Bool
  | .heightRead _ | .generated _ => true
  | _ => false

/-- The call minds that the id of a best header of such a height is written now. -/
def minds (height : Nat) : CandidatePhase → Bool
  | .heightRead read => read ≠ height
  | .generated _ => true
  | .idWritten _ => true
  | _ => false

end CandidatePhase

/-- The best height is not that of the header whose id is the best one. -/
def torn (run : CandidateRun) : Bool :=
  run.calls.any fun call => call.unwritten.any fun height => height ≠ run.shared.history.mem.bestHeight

/-- A request takes the height, or a kept candidate, when the best header's id and height go together, there is
a next height and the candidate was made for the best header. An append writes the id of a best header when no
other is about to write the height, and no request has yet to return for another id or height. -/
def Undisturbed (run : CandidateRun) (inputs : CandidateInputs) : CandidatePhase → Prop
  | .called .getOrGenerate => ∀ cached ∈ run.shared.generator.cachedCandidate,
      CandidateGenerator.isFresh run.shared.history.mem inputs.now cached →
        torn run = false ∧ run.shared.history.mem.bestHeight + 1 < 2 ^ 32 ∧
          cached.parentId = run.shared.history.mem.bestHeaderId
  | .addressRead => torn run = false ∧ run.shared.history.mem.bestHeight + 1 < 2 ^ 32
  | .selected best => ∀ call ∈ run.calls, call.minds best.height = false
  | _ => True

/-- The step of a call is undisturbed. -/
def StepsUndisturbed (run : CandidateRun) : CandidateRun.Action → Prop
  | .call _ => True
  | .advance index inputs => ∀ phase ∈ run.calls[index]?, Undisturbed run inputs phase

/-! ### What holds between the steps -/

section Steps
variable {sr : SigmaRust} {run next : CandidateRun} {action : CandidateRun.Action} {inputs : CandidateInputs}
variable {s t : CandidateState} {phase after : CandidatePhase} {index : Nat} {candidate : BlockCandidate}

/-- What a call has to go on with: a header that came, and what it read of the best header. -/
def Fits (s : CandidateState) : CandidatePhase → Prop
  | .appending rest => LeadsTo rest (AmongHeaders s.headers)
  | .selected best => ∃ header ∈ s.headers, best.id = header.id ∧ best.height = header.height
  | .idWritten best => ∃ header ∈ s.headers, s.history.mem.bestHeaderId = some header.id ∧ best.height = header.height
  | .heightRead height => height = s.history.mem.bestHeight ∧ height + 1 < 2 ^ 32
  | .generated candidate => candidate.parentId = s.history.mem.bestHeaderId ∧
      candidate.height = s.history.mem.bestHeight + 1
  | _ => True

structure Coherent (run : CandidateRun) : Prop where
  calls : ∀ call ∈ run.calls, Fits run.shared call
  known : (∀ call ∈ run.calls, call.unwritten = none) → BestKnown run.shared
  whole : (∃ call ∈ run.calls, call.isReading = true) → torn run = false

theorem BestKnown.mono (known : BestKnown s)
    (place : History.bestPlace t.history.mem = History.bestPlace s.history.mem) (more : s.headers ⊆ t.headers) :
    BestKnown t := by
  unfold BestKnown
  rw [place]
  exact known.imp_right fun ⟨header, came, best⟩ => ⟨header, more came, best⟩

theorem Fits.mono (fits : Fits s phase) (place : History.bestPlace t.history.mem = History.bestPlace s.history.mem)
    (more : s.headers ⊆ t.headers) : Fits t phase := by
  have id : t.history.mem.bestHeaderId = s.history.mem.bestHeaderId := congrArg Prod.fst place
  have height : t.history.mem.bestHeight = s.history.mem.bestHeight := congrArg Prod.snd place
  cases phase with
  | appending rest => exact fits.mono fun best among => among.mono more
  | selected best => exact fits.imp fun header known => ⟨more known.1, known.2⟩
  | idWritten best =>
      obtain ⟨header, came, best⟩ := fits
      exact ⟨header, more came, id ▸ best⟩
  | heightRead read =>
      unfold Fits at fits ⊢
      rwa [height]
  | generated candidate =>
      unfold Fits at fits ⊢
      rwa [id, height]
  | _ => trivial

theorem torn_eq_false : torn run = false ↔
    ∀ call ∈ run.calls, ∀ height, call.unwritten = some height → height = run.shared.history.mem.bestHeight := by
  unfold torn
  rw [List.any_eq_false]
  refine forall₂_congr fun call member => ?_
  cases call.unwritten with
  | none => simp
  | some height => simp

theorem Coherent.bestKnown (coherent : Coherent run) (whole : torn run = false) : BestKnown run.shared := by
  by_cases written : ∀ call ∈ run.calls, call.unwritten = none
  · exact coherent.known written
  · simp only [not_forall] at written
    obtain ⟨call, member, pending⟩ := written
    have fits := coherent.calls call member
    have same := torn_eq_false.mp whole call member
    cases call with
    | idWritten best =>
        obtain ⟨header, came, id, height⟩ := fits
        exact .inr ⟨header, came, Prod.ext id ((same _ rfl).symm.trans height)⟩
    | _ => exact absurd rfl pending

theorem Coherent.moved (coherent : Coherent run) (here : run.calls[index]? = some phase)
    (place : History.bestPlace t.history.mem = History.bestPlace run.shared.history.mem)
    (more : run.shared.headers ⊆ t.headers) (before : phase.unwritten = none) (afterCall : after.unwritten = none)
    (fits : Fits t after) (whole : after.isReading = true → phase.isReading = true ∨ torn run = false) :
    Coherent ⟨t, run.calls.set index after⟩ where
  calls := Threads.forall_mem_set fits fun call member => (coherent.calls call member).mono place more
  known written := (coherent.known (Threads.forall_mem_of_set here before written)).mono place more
  whole := by
    rintro ⟨call, member, reading⟩
    have same : torn run = false := by
      rcases List.mem_or_eq_of_mem_set member with old | rfl
      · exact coherent.whole ⟨call, old, reading⟩
      · exact (whole reading).elim (fun reads => coherent.whole ⟨phase, List.mem_of_getElem? here, reads⟩) id
    rw [torn_eq_false] at same ⊢
    intro other among height pending
    rcases List.mem_or_eq_of_mem_set among with old | rfl
    · exact (same other old height pending).trans (congrArg Prod.snd place).symm
    · exact absurd (pending.symm.trans afterCall) nofun

/-- The id of a new best header is written. -/
theorem Coherent.idWritten {best : BestHeader} (coherent : Coherent run)
    (here : run.calls[index]? = some (.selected best)) (undisturbed : ∀ call ∈ run.calls, call.minds best.height = false) :
    Coherent ⟨{ run.shared with history.mem.bestHeaderId := some best.id }, run.calls.set index (.idWritten best)⟩ where
  calls := by
    refine Threads.forall_mem_set ?_ fun call member => ?_
    · obtain ⟨header, came, id, height⟩ := coherent.calls _ (List.mem_of_getElem? here)
      exact ⟨header, came, congrArg some id, height⟩
    · have fits := coherent.calls call member
      have agrees := undisturbed call member
      cases call with
      | generated candidate => cases agrees
      | idWritten best => cases agrees
      | _ => exact fits
  known written := by
    have last := written _ (List.mem_set (List.getElem?_eq_some_iff.mp here).1 _)
    cases last
  whole := by
    rintro ⟨call, member, reading⟩
    have same : best.height = run.shared.history.mem.bestHeight := by
      rcases List.mem_or_eq_of_mem_set member with old | rfl
      · have agrees := undisturbed call old
        cases call with
        | heightRead read =>
            have equal : read = best.height := by simpa [CandidatePhase.minds] using agrees
            exact equal.symm.trans (coherent.calls _ old).1
        | generated candidate => cases agrees
        | _ => cases reading
      · cases reading
    rw [torn_eq_false]
    intro other among pending written
    rcases List.mem_or_eq_of_mem_set among with old | rfl
    · have agrees := undisturbed other old
      cases other with
      | idWritten best => cases agrees
      | _ => cases written
    · cases written
      exact same

/-- The height is written. A request that has read another one is gone. -/
theorem Coherent.heightWritten {best : BestHeader} (coherent : Coherent run)
    (here : run.calls[index]? = some (.idWritten best)) :
    Coherent ⟨{ run.shared with history.mem.bestHeight := best.height }, run.calls.set index (.heightWritten best)⟩ := by
  have own := List.mem_of_getElem? here
  obtain ⟨header, came, id, height⟩ := coherent.calls _ own
  have unread (reading : ∃ call ∈ run.calls, call.isReading = true) :
      best.height = run.shared.history.mem.bestHeight :=
    torn_eq_false.mp (coherent.whole reading) _ own _ rfl
  refine ⟨?_, fun _ => .inr ⟨header, came, Prod.ext id height⟩, ?_⟩
  · refine Threads.forall_mem_set trivial fun call member => ?_
    have fits := coherent.calls call member
    cases call with
    | heightRead read => exact ⟨fits.1.trans (unread ⟨_, member, rfl⟩).symm, fits.2⟩
    | generated candidate =>
        refine ⟨fits.1, fits.2.trans ?_⟩
        exact congrArg (· + 1) (unread ⟨_, member, rfl⟩).symm
    | _ => exact fits
  · rintro ⟨call, member, reading⟩
    rcases List.mem_or_eq_of_mem_set member with old | rfl
    · have same := coherent.whole ⟨call, old, reading⟩
      rw [torn_eq_false] at same ⊢
      intro other among pending written
      rcases List.mem_or_eq_of_mem_set among with there | rfl
      · exact (same other there pending written).trans (unread ⟨call, old, reading⟩).symm
      · cases written
    · cases reading

theorem Coherent.call (coherent : Coherent run) (request : CandidateCall) :
    Coherent ⟨run.shared, run.calls ++ [.called request]⟩ where
  calls := List.forall_mem_append.mpr ⟨coherent.calls, List.forall_mem_singleton.mpr trivial⟩
  known written := coherent.known (List.forall_mem_append.mp written).1
  whole := by
    rintro ⟨call, member, reading⟩
    rcases List.mem_append.mp member with old | new
    · have same := coherent.whole ⟨call, old, reading⟩
      unfold torn at same ⊢
      rw [List.any_append, same]
      rfl
    · rw [List.mem_singleton.mp new] at reading
      cases reading

/-- A header call comes to its next access, or to the fields. -/
theorem Coherent.appended (coherent : Coherent run) (here : run.calls[index]? = some phase)
    (place : History.bestPlace t.history.mem = History.bestPlace run.shared.history.mem)
    (more : run.shared.headers ⊆ t.headers) (before : phase.unwritten = none) {rest : HeaderAccesses (Option BestHeader)}
    (leads : LeadsTo rest (AmongHeaders t.headers)) : Coherent ⟨t, run.calls.set index (.ofAccesses rest)⟩ := by
  cases rest with
  | done best =>
      cases best with
      | none => exact coherent.moved here place more before rfl trivial nofun
      | some best => exact coherent.moved here place more before rfl (leads best rfl) nofun
  | failed error => exact coherent.moved here place more before rfl trivial nofun
  | access move next => exact coherent.moved here place more before rfl leads nofun

theorem Coherent.takeCall (coherent : Coherent run) {call : CandidateCall} (here : run.calls[index]? = some (.called call)) :
    Coherent ⟨(run.shared.takeCall sr inputs call).1, run.calls.set index (run.shared.takeCall sr inputs call).2⟩ := by
  cases call with
  | getOrGenerate =>
      unfold CandidateState.takeCall
      dsimp only
      split <;> exact coherent.moved here rfl (List.Subset.refl _) rfl rfl trivial nofun
  | setRewardAddress address => exact coherent.moved here rfl (List.Subset.refl _) rfl rfl trivial nofun
  | invalidate => exact coherent.moved here rfl (List.Subset.refl _) rfl rfl trivial nofun
  | headers call =>
      refine coherent.appended here ?_ (List.subset_append_left ..) rfl ?_
      · rfl
      · exact (leads_headerAccesses sr call).mono fun best among => among.mono (List.subset_append_right ..)

theorem coherent_step (coherent : Coherent run) (undisturbed : StepsUndisturbed run action)
    (taken : run.step sr action = some next) : Coherent next := by
  rcases Threads.step_cases taken with ⟨request, rfl, rfl⟩ | ⟨index, inputs, phase, rfl, here, rfl⟩
  · exact coherent.call request
  · have whole := undisturbed phase here
    have fits := coherent.calls phase (List.mem_of_getElem? here)
    cases phase with
    | called call => exact coherent.takeCall here
    | generating =>
        unfold CandidateState.advance
        dsimp only
        split
        · exact coherent.moved here rfl (List.Subset.refl _) rfl rfl trivial nofun
        · exact coherent.moved here rfl (List.Subset.refl _) rfl rfl trivial nofun
    | addressRead => exact coherent.moved here rfl (List.Subset.refl _) rfl rfl ⟨rfl, whole.2⟩ fun _ => .inr whole.1
    | heightRead height =>
        refine coherent.moved here rfl (List.Subset.refl _) rfl rfl ⟨rfl, ?_⟩ fun _ => .inl rfl
        exact (Nat.mod_eq_of_lt fits.2).trans (congrArg (· + 1) fits.1)
    | generated candidate => exact coherent.moved here rfl (List.Subset.refl _) rfl rfl trivial nofun
    | returned result => exact coherent.moved here rfl (List.Subset.refl _) rfl rfl trivial nofun
    | addressSet => exact coherent.moved here rfl (List.Subset.refl _) rfl rfl trivial nofun
    | appending rest =>
        obtain ⟨leads, same⟩ := fits.step run.shared.history
        exact coherent.appended (t := { run.shared with history := (rest.step run.shared.history).2 }) here
          (congrArg History.bestPlace same) (List.Subset.refl _) rfl leads
    | selected best => exact coherent.idWritten here whole
    | idWritten best => exact coherent.heightWritten here
    | heightWritten best => exact coherent.moved here rfl (List.Subset.refl _) rfl rfl trivial nofun
    | done => exact coherent.moved here rfl (List.Subset.refl _) rfl rfl trivial nofun

theorem isNext_of_fresh (coherent : Coherent run) {cached : BlockCandidate}
    (undisturbed : Undisturbed run inputs (.called .getOrGenerate))
    (kept : run.shared.generator.cachedCandidate = some cached)
    (fresh : CandidateGenerator.isFresh run.shared.history.mem inputs.now cached = true) : IsNext run.shared cached := by
  obtain ⟨whole, room, parent⟩ := undisturbed cached kept fresh
  have height : cached.height = CandidateGenerator.nextHeight run.shared.history.mem := by
    simp only [CandidateGenerator.isFresh, Bool.and_eq_true, beq_iff_eq] at fresh
    exact fresh.1
  exact ⟨coherent.bestKnown whole, parent, height.trans (Nat.mod_eq_of_lt room)⟩

theorem returned_ne_ofAccesses {result : MiningResult BlockCandidate} (rest : HeaderAccesses (Option BestHeader)) :
    CandidatePhase.ofAccesses rest ≠ .returned result := by
  cases rest with
  | done best => cases best <;> nofun
  | failed error => nofun
  | access move next => nofun

theorem forBest_of_coherent (coherent : Coherent run) (undisturbed : StepsUndisturbed run action) : ForBest sr run action := by
  cases action with
  | call request => trivial
  | advance index inputs =>
      intro phase candidate here fresh returned
      have own := List.mem_of_getElem? here
      have whole := undisturbed phase here
      cases phase with
      | called call =>
          cases call with
          | getOrGenerate =>
              unfold CandidateState.advance CandidateState.takeCall at returned
              dsimp only at returned
              split at returned
              · next cached found =>
                  cases returned
                  obtain ⟨kept, fresh⟩ := Option.filter_eq_some_iff.mp found
                  exact isNext_of_fresh coherent whole kept fresh
              · cases returned
          | headers call => exact absurd returned (returned_ne_ofAccesses _)
          | setRewardAddress address => cases returned
          | invalidate => cases returned
      | generating =>
          unfold CandidateState.advance at returned
          dsimp only at returned
          split at returned <;> cases returned
      | appending rest => exact absurd returned (returned_ne_ofAccesses _)
      | generated made =>
          cases returned
          exact ⟨coherent.bestKnown (coherent.whole ⟨_, own, rfl⟩), coherent.calls _ own⟩
      | returned result =>
          cases returned
          exact absurd rfl fresh
      | _ => cases returned

end Steps

/-- Candidates are returned for the block after the best header throughout a run whose steps are undisturbed. A
header call that nothing comes between is the call of the history. -/
theorem candidates_forBest (sr : SigmaRust) (history : State) (headers : List Header)
    (known : BestKnown ⟨history, .new, headers⟩) (actions : List CandidateRun.Action)
    (undisturbed : Along (CandidateRun.step sr) StepsUndisturbed (.start history headers) actions) :
    Along (CandidateRun.step sr) (ForBest sr) (.start history headers) actions ∧
      ∀ run call inputs, CandidateRun.DoesAtOnce sr run call inputs := by
  refine ⟨?_, doesAtOnce sr⟩
  have start : Coherent (.start history headers) := ⟨nofun, fun _ => known, fun ⟨_, member, _⟩ => nomatch member⟩
  intro before action prefixed run ran
  have always := undisturbed.invariant Coherent coherent_step start
  refine forBest_of_coherent (always run ⟨before, ?_, ran⟩) (undisturbed before action prefixed run ran)
  exact (List.prefix_append before [action]).trans prefixed

/-! ### Another header of the same height -/

section Samples

def rivalHeader : Header := Sample.sampleHeader 23 12 3 Sample.hardBits

def rivalCodec : SigmaRust := Sample.codec [] [Sample.header11, Sample.header12, Sample.header13, rivalHeader] []

def sampleInputs : CandidateInputs where
  byFee := []
  stateRoot := List.replicate 33 7
  blockReward := fun _ => 0
  difficulty := fun _ => Sample.easyBits
  now := 2000
  generatedAt := 1000

def emptyCandidates : CandidateRun := .start ⟨.empty, .new⟩ []

def moves (index count : Nat) : List CandidateRun.Action := List.replicate count (.advance index sampleInputs)

def appends (header : Header) : CandidateRun.Action := .call (.headers (.appendHeader header))

def rivalActions : List CandidateRun.Action :=
  .call (.setRewardAddress "reward") :: moves 0 2 ++ appends Sample.header11 :: moves 1 8 ++
    appends Sample.header12 :: moves 2 8 ++ appends Sample.header13 :: moves 3 10 ++
    .call .getOrGenerate :: moves 4 5 ++ appends rivalHeader :: moves 5 10 ++ [.call .getOrGenerate, .advance 6 sampleInputs]

theorem rivalActions_not_forBest :
    ¬ Along (CandidateRun.step rivalCodec) (ForBest rivalCodec) emptyCandidates rivalActions := by
  intro along
  have last := along rivalActions.dropLast (.advance 6 sampleInputs) List.prefix_rfl _ rfl _ _ rfl nofun rfl
  exact absurd last.2.1 (by decide)

instance (run : CandidateRun) (inputs : CandidateInputs) : DecidablePred (Undisturbed run inputs)
  | .called .getOrGenerate => inferInstanceAs (Decidable (∀ cached ∈ run.shared.generator.cachedCandidate, _ → _))
  | .addressRead => inferInstanceAs (Decidable (_ ∧ _))
  | .selected _ => inferInstanceAs (Decidable (∀ call ∈ run.calls, _))
  | .called (.setRewardAddress _) | .called .invalidate | .called (.headers _) | .generating | .heightRead _
  | .generated _ | .returned _ | .addressSet | .appending _ | .idWritten _ | .heightWritten _ | .done => .isTrue trivial

instance (run : CandidateRun) : DecidablePred (StepsUndisturbed run)
  | .call _ => .isTrue trivial
  | .advance index _ => inferInstanceAs (Decidable (∀ phase ∈ run.calls[index]?, _))

/-- A header is appended while a request makes a candidate, and a rival of the same height takes its place while
another request does. -/
def branchActions : List CandidateRun.Action :=
  .call (.setRewardAddress "reward") :: moves 0 2 ++ appends Sample.header11 :: moves 1 8 ++
    .call .getOrGenerate :: moves 2 2 ++ appends Sample.header12 :: moves 3 5 ++ moves 2 3 ++ moves 3 3 ++
    appends Sample.header13 :: moves 4 10 ++ .call .getOrGenerate :: moves 5 3 ++ appends rivalHeader :: moves 6 10 ++
    moves 5 2 ++ [.call .getOrGenerate, .advance 7 sampleInputs]

theorem branchActions_forBest :
    Along (CandidateRun.step rivalCodec) (ForBest rivalCodec) emptyCandidates branchActions :=
  (candidates_forBest rivalCodec _ _ (.inl rfl) branchActions (by decide +kernel)).1

end Samples
end ErgoNode.Proof.Mining
