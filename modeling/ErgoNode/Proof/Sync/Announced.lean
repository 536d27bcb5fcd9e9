import ErgoNode.Proof.Sync.Checked
import ErgoNode.Sync.HeaderInv

/-!
# Announced headers

An announced header waits in the queue or is in flight until it comes, exactly if no delivery under an id
that is in flight and not in the queue brings anything else.
-/

namespace ErgoNode.Proof.Sync
open Lib

def Pursued (s : HeaderRequests) (id : Bytes) : Prop := id ∈ s.pendingHeaderInv ∨ id ∈ s.inFlightHeaders

def announced (actions : List HeaderRequests.Action) : List Bytes :=
  actions.flatMap fun
    | .inv _ ids => ids
    | .receive _ _ | .tick _ => []

def arrived (actions : List HeaderRequests.Action) : List Bytes :=
  actions.flatMap fun
    | .receive _ data => [data]
    | .inv _ _ | .tick _ => []

/-- The header was announced and has not come, neither before the run nor in it. -/
def Outstanding (sr : SigmaRust) (start : HeaderSync) (actions : List HeaderRequests.Action) (id : Bytes) : Prop :=
  id ∈ announced actions ∧ id ∉ start.storedHeaders ∧
    ∀ header rawBytes, Received sr (arrived actions) header rawBytes → header.id.bytes ≠ id

def NoneForgotten (sr : SigmaRust) (start : HeaderSync) (s : HeaderRequests × List HeaderRequests.Action) : Prop :=
  ∀ id, Outstanding sr start s.2 id → Pursued s.1 id

def Answers (sr : SigmaRust) (id data : Bytes) : Prop :=
  ∃ header ∈ (HeaderSync.receivedHeader sr data).toOption, header.id.bytes = id

instance (sr : SigmaRust) (id data : Bytes) : Decidable (Answers sr id data) :=
  inferInstanceAs (Decidable (∃ header ∈ Except.toOption _, _))

/-- A delivery that is not the header of its id does not end the pursuit of the id. -/
def StaysPursued (sr : SigmaRust) (s : HeaderRequests) : HeaderRequests.Action → Prop
  | .receive id data => ¬ Answers sr id data → Pursued s id →
      ∀ t, HeaderRequests.step sr s (.receive id data) = some t → Pursued t id
  | .inv _ _ | .tick _ => True

/-- What comes under an id that is in flight and not in the queue is its header. -/
def Answered (sr : SigmaRust) (s : HeaderRequests) : HeaderRequests.Action → Prop
  | .receive id data => id ∈ s.inFlightHeaders → id ∉ s.pendingHeaderInv → Answers sr id data
  | .inv _ _ | .tick _ => True

def Roomy (s : HeaderRequests) : HeaderRequests.Action → Prop
  | .inv _ ids => s.pendingHeaderInv.length +
      ((ids.filter fun id => id ∉ s.sync.storedHeaders).drop HeaderRequests.maxRequestSize).length ≤
        HeaderRequests.maxPendingHeaderInv
  | .tick tick => s.pendingHeaderInv.length + tick.timedOut.length ≤ HeaderRequests.maxPendingHeaderInv
  | .receive _ _ => True

instance (sr : SigmaRust) (s : HeaderRequests) : DecidablePred (Answered sr s)
  | .receive _ _ => inferInstanceAs (Decidable (_ → _ → _))
  | .inv _ _ | .tick _ => inferInstanceAs (Decidable True)

instance (s : HeaderRequests) : DecidablePred (Roomy s)
  | .inv _ _ | .tick _ => inferInstanceAs (Decidable (_ ≤ _))
  | .receive _ _ => inferInstanceAs (Decidable True)

/-! ### Where the cache and what waits come from -/

/-- Waiting headers were received, and so were the headers in the cache apart from the `old` ones. -/
structure Sourced (sr : SigmaRust) (data : List Bytes) (old : Bytes → Prop) (s : HeaderSync) : Prop where
  waiting : ∀ {id pending}, s.pendingHeaders.byId.lookup id = some pending →
    Received sr data pending.header pending.rawBytes
  cached : ∀ id ∈ s.storedHeaders, old id ∨ ∃ header rawBytes, Received sr data header rawBytes ∧ header.id.bytes = id

section Sourced
variable {sr : SigmaRust} {data more : List Bytes} {old : Bytes → Prop} {s : HeaderSync}
variable {header : Header} {rawBytes id : Bytes}

theorem Sourced.mono (sourced : Sourced sr data old s) (le : data ⊆ more) : Sourced sr more old s where
  waiting here := (sourced.waiting here).mono le
  cached id member := (sourced.cached id member).imp_right fun ⟨header, rawBytes, received, same⟩ =>
    ⟨header, rawBytes, received.mono le, same⟩

theorem Sourced.removePending (sourced : Sourced sr data old s) (id : Bytes) :
    Sourced sr data old (HeaderSync.removePending id s) :=
  ⟨fun here => sourced.waiting (lookup_remove here), sourced.cached⟩

theorem Sourced.bufferHeader (sourced : Sourced sr data old s) (received : Received sr data header rawBytes) :
    Sourced sr data old (HeaderSync.bufferHeader sr header rawBytes s) where
  waiting here := by
    rw [HeaderSync.bufferHeader_pendingHeaders] at here
    exact sourced.waiting here
  cached id member := by
    rw [HeaderSync.bufferHeader_storedHeaders] at member
    rcases LruCache.mem_of_put member with rfl | before
    · exact .inr ⟨header, rawBytes, received, rfl⟩
    · exact sourced.cached id before

theorem Sourced.flushIfDue (sourced : Sourced sr data old s) :
    Op.Ends (Sourced sr data old) (HeaderSync.flushIfDue sr) s := by
  obtain ⟨waiting, cache⟩ := Prod.mk.inj (@keeps_flushIfDue sr s)
  constructor
  · rw [waiting]
    exact sourced.waiting
  · rw [cache]
    exact sourced.cached

theorem Sourced.storeHeaderAndDescendants (fuel : Nat) (sourced : Sourced sr data old s)
    (received : Received sr data header rawBytes) :
    Op.Ends (Sourced sr data old) (HeaderSync.storeHeaderAndDescendants sr fuel header rawBytes) s := by
  induction fuel generalizing s header rawBytes with
  | zero => exact sourced
  | succ fuel ih =>
      have buffered := sourced.bufferHeader received
      refine Op.Ends.modify_bind (Op.Ends.get_bind ((Op.Ends.forEach_mem (fun entry member t here => ?_) buffered).bind
        fun _ t _ there => there.flushIfDue))
      exact .modify_bind (ih (here.removePending entry.1) (buffered.waiting (mem_getByParent member).2))

theorem Sourced.onHeaderReceived (sourced : Sourced sr data old s) (member : rawBytes ∈ data) :
    Op.Ends (Sourced sr data old) (HeaderSync.onHeaderReceived sr rawBytes) s := by
  unfold HeaderSync.onHeaderReceived
  rcases parsed : HeaderSync.receivedHeader sr rawBytes with e | header
  · exact sourced
  · refine Op.Ends.get_bind (.ite (fun _ => sourced) fun _ => .ite (fun _ => ?_) fun _ => ?_)
    · exact sourced.storeHeaderAndDescendants _ ⟨member, parsed⟩
    · refine ⟨fun here => ?_, sourced.cached⟩
      rcases lookup_insert here with ⟨rfl, rfl⟩ | before
      · exact ⟨member, parsed⟩
      · exact sourced.waiting before

theorem Sourced.clearStuck (sourced : Sourced sr data old s) : Sourced sr data old (HeaderRequests.clearStuck s) := by
  unfold HeaderRequests.clearStuck
  split
  · exact ⟨fun here => by simp [PendingHeadersMap.new] at here, sourced.cached⟩
  · exact sourced

theorem Sourced.requestMore {s : HeaderRequests} (sourced : Sourced sr data old s.sync) (now : Nat) (peerAvailable : Bool) :
    Sourced sr data old (HeaderRequests.requestMoreHeadersIfNeeded now peerAvailable s).sync := by
  unfold HeaderRequests.requestMoreHeadersIfNeeded
  split
  · exact sourced
  · dsimp only
    split <;> exact sourced.clearStuck

end Sourced

/-! ### What each action does to the pursuit -/

section Pursuit
variable {sr : SigmaRust} {s t : HeaderRequests} {id other : Bytes}

theorem mem_track {now : Nat} {ids : List Bytes} {inFlight : Table Bytes Nat} :
    id ∈ HeaderRequests.track now ids inFlight ↔ id ∈ ids ∨ id ∈ inFlight := by
  induction ids generalizing inFlight with
  | nil => simp [HeaderRequests.track]
  | cons first rest ih =>
      rw [HeaderRequests.track, List.foldl_cons, ← HeaderRequests.track, ih, AList.mem_insert, List.mem_cons]
      tauto

theorem evictOldest_of_room {spaceNeeded : Nat} {ids : List Bytes}
    (room : ids.length + spaceNeeded ≤ HeaderRequests.maxPendingHeaderInv) :
    HeaderRequests.evictOldest spaceNeeded ids = ids := by
  cases ids with
  | nil => rfl
  | cons id rest => rw [HeaderRequests.evictOldest, if_neg (Nat.not_lt.mpr room)]

theorem mem_popRequests {stored : LruCache Bytes storedHeadersCacheSize} {room : Nat} {ids : List Bytes}
    (member : id ∈ ids) (new : id ∉ stored) :
    id ∈ (HeaderRequests.popRequests stored room ids).1 ∨ id ∈ (HeaderRequests.popRequests stored room ids).2 := by
  induction ids generalizing room with
  | nil => cases member
  | cons first rest ih =>
      cases room with
      | zero => exact .inr member
      | succ room =>
          rw [HeaderRequests.popRequests]
          split
          · next known =>
              rcases List.mem_cons.mp member with rfl | later
              · exact absurd known new
              · exact ih later
          · rcases List.mem_cons.mp member with rfl | later
            · exact .inl List.mem_cons_self
            · exact (ih later).imp_left (List.mem_cons_of_mem first)

theorem Pursued.onInv (pursued : Pursued s id) {now : Nat} {ids : List Bytes} (roomy : Roomy s (.inv now ids)) :
    Pursued (HeaderRequests.onInv now ids s) id := by
  rcases pursued with queued | inFlight
  · refine .inl ?_
    simp only [HeaderRequests.onInv]
    split
    · exact queued
    · rw [evictOldest_of_room roomy]
      exact List.mem_append_left _ queued
  · exact .inr (mem_track.mpr (.inr inFlight))

theorem pursued_onInv {now : Nat} {ids : List Bytes} (member : id ∈ ids) (new : id ∉ s.sync.storedHeaders) :
    Pursued (HeaderRequests.onInv now ids s) id := by
  have filtered : id ∈ ids.filter fun id => id ∉ s.sync.storedHeaders := List.mem_filter.mpr ⟨member, by simpa using new⟩
  rw [← List.take_append_drop HeaderRequests.maxRequestSize (ids.filter _), List.mem_append] at filtered
  rcases filtered with first | remaining
  · exact .inr (mem_track.mpr (.inl first))
  · refine .inl ?_
    simp only [HeaderRequests.onInv]
    rw [if_neg (List.ne_nil_of_mem remaining)]
    exact List.mem_append_right _ remaining

theorem pursued_onHeaderReceived {data : Bytes} :
    Pursued ((HeaderRequests.onHeaderReceived sr other data).exec s).2 id ↔
      id ∈ s.pendingHeaderInv ∨ id ≠ other ∧ id ∈ s.inFlightHeaders := by
  rw [HeaderRequests.onHeaderReceived, Op.exec_bind_of_ok (Op.exec_modify _ s), Op.exec_zoom]
  exact or_congr_right AList.mem_erase

theorem Pursued.requeue (pursued : Pursued s id) (room : s.pendingHeaderInv.length < HeaderRequests.maxPendingHeaderInv)
    (other : Bytes) : Pursued (HeaderRequests.requeue s other) id := by
  by_cases same : id = other
  · exact .inl (List.mem_cons.mpr (.inl same))
  · rcases pursued with queued | inFlight
    · refine .inl (List.mem_cons_of_mem other ?_)
      rw [if_neg (Nat.not_le.mpr room)]
      exact queued
    · exact .inr (AList.mem_erase.mpr ⟨same, inFlight⟩)

theorem Pursued.requeueAll {timedOut : List Bytes} (pursued : Pursued s id)
    (room : s.pendingHeaderInv.length + timedOut.length ≤ HeaderRequests.maxPendingHeaderInv) :
    Pursued (timedOut.foldl HeaderRequests.requeue s) id := by
  induction timedOut generalizing s with
  | nil => exact pursued
  | cons first rest ih =>
      rw [List.length_cons] at room
      have here : s.pendingHeaderInv.length < HeaderRequests.maxPendingHeaderInv := by omega
      refine ih (pursued.requeue here first) ?_
      simp only [HeaderRequests.requeue, if_neg (Nat.not_le.mpr here), List.length_cons]
      omega

theorem sync_requeueAll (timedOut : List Bytes) : (timedOut.foldl HeaderRequests.requeue s).sync = s.sync := by
  induction timedOut generalizing s with
  | nil => rfl
  | cons first rest ih => exact ih

theorem clearStuck_storedHeaders (sync : HeaderSync) :
    (HeaderRequests.clearStuck sync).storedHeaders = sync.storedHeaders := by
  unfold HeaderRequests.clearStuck
  split <;> rfl

theorem Pursued.requestMore (pursued : Pursued s id) (new : id ∉ s.sync.storedHeaders) (now : Nat)
    (peerAvailable : Bool) : Pursued (HeaderRequests.requestMoreHeadersIfNeeded now peerAvailable s) id := by
  unfold HeaderRequests.requestMoreHeadersIfNeeded
  split
  · exact pursued
  · dsimp only
    split
    · rcases pursued with queued | inFlight
      · rw [← clearStuck_storedHeaders] at new
        rcases mem_popRequests queued new with next | left
        · exact .inr (mem_track.mpr (.inl next))
        · exact .inl left
      · exact .inr (mem_track.mpr (.inr inFlight))
    · exact pursued

end Pursuit

/-! ### Over a run -/

structure Pursuing (sr : SigmaRust) (start : HeaderSync) (s : HeaderRequests × List HeaderRequests.Action) : Prop where
  sourced : Sourced sr (arrived s.2) (· ∈ start.storedHeaders) s.1.sync
  none : NoneForgotten sr start s

section Run
variable {sr : SigmaRust} {start : HeaderSync} {s t : HeaderRequests} {seen : List HeaderRequests.Action}
variable {action : HeaderRequests.Action} {id : Bytes}

theorem announced_snoc : announced (seen ++ [action]) = announced seen ++ announced [action] := List.flatMap_append

theorem arrived_snoc : arrived (seen ++ [action]) = arrived seen ++ arrived [action] := List.flatMap_append

theorem Outstanding.not_stored (outstanding : Outstanding sr start seen id) {sync : HeaderSync}
    (sourced : Sourced sr (arrived seen) (· ∈ start.storedHeaders) sync) : id ∉ sync.storedHeaders := by
  intro member
  rcases sourced.cached id member with old | ⟨header, rawBytes, received, same⟩
  · exact outstanding.2.1 old
  · exact outstanding.2.2 header rawBytes received same

theorem Outstanding.before (outstanding : Outstanding sr start (seen ++ [action]) id) :
    id ∈ announced [action] ∨ Outstanding sr start seen id := by
  obtain ⟨here, new, none⟩ := outstanding
  rw [announced_snoc, List.mem_append] at here
  refine here.symm.imp_right fun earlier => ⟨earlier, new, fun header rawBytes received => none header rawBytes ?_⟩
  rw [arrived_snoc]
  exact received.mono (List.subset_append_left _ _)

theorem Pursuing.tick (pursuing : Pursuing sr start (s, seen)) {tick : Tick} (roomy : Roomy s (.tick tick)) :
    Op.Ends (fun t => Pursuing sr start (t, seen)) (HeaderRequests.onTick sr tick) s := by
  have flushed : Op.Ends (Sourced sr (arrived seen) (· ∈ start.storedHeaders)) (HeaderSync.flushIfDue sr) s.sync :=
    pursuing.sourced.flushIfDue
  rw [Op.Ends, HeaderRequests.onTick, Op.exec_bind, Op.exec_zoom]
  rcases ran : (HeaderSync.flushIfDue sr).exec s.sync with ⟨result, sync⟩
  rw [Op.Ends, ran] at flushed
  cases result with
  | error e => exact ⟨flushed, pursuing.none⟩
  | ok _ =>
      dsimp only
      rw [Op.exec_bind_of_ok (Op.exec_modify _ _), Op.exec_ite]
      have requeued (id : Bytes) (outstanding : Outstanding sr start seen id) :
          Pursued (tick.timedOut.foldl HeaderRequests.requeue { s with sync }) id :=
        (show Pursued { s with sync } id from pursuing.none id outstanding).requeueAll roomy
      have cache : Sourced sr (arrived seen) (· ∈ start.storedHeaders)
          (tick.timedOut.foldl HeaderRequests.requeue { s with sync }).sync := by
        rw [sync_requeueAll]
        exact flushed
      split
      · exact ⟨cache.requestMore _ _, fun id outstanding =>
          (requeued id outstanding).requestMore (outstanding.not_stored cache) _ _⟩
      · exact ⟨cache, requeued⟩

theorem Pursuing.step (pursuing : Pursuing sr start (s, seen)) (answered : Answered sr s action) (roomy : Roomy s action)
    (taken : HeaderRequests.step sr s action = some t) : Pursuing sr start (t, seen ++ [action]) := by
  have grown : arrived seen ⊆ arrived (seen ++ [action]) := by
    rw [arrived_snoc]
    exact List.subset_append_left _ _
  cases action with
  | inv now ids =>
      cases taken
      refine ⟨pursuing.sourced.mono grown, fun id outstanding => ?_⟩
      rcases outstanding.before with new | before
      · have new : id ∈ ids := by simpa [announced] using new
        exact pursued_onInv new (outstanding.not_stored (pursuing.sourced.mono grown))
      · exact (pursuing.none id before).onInv roomy
  | receive other data =>
      cases taken
      have member : data ∈ arrived (seen ++ [.receive other data]) := by simp [arrived]
      refine ⟨(pursuing.sourced.mono grown).onHeaderReceived member, fun id outstanding => pursued_onHeaderReceived.mpr ?_⟩
      have before := outstanding.before.resolve_left (by simp [announced])
      rcases pursuing.none id before with queued | inFlight
      · exact .inl queued
      · by_cases same : id = other
        · subst same
          -- only its header could have ended the request, and that has not come
          by_contra lost
          obtain ⟨header, parsed, equal⟩ := answered inFlight fun queued => lost (.inl queued)
          exact outstanding.2.2 header data ⟨member, Except.toOption_eq_some.mp parsed⟩ equal
        · exact .inr ⟨same, inFlight⟩
  | tick tick =>
      obtain ⟨-, ⟨⟩⟩ := Option.ite_none_right_eq_some.mp taken
      have kept := pursuing.tick roomy
      exact ⟨kept.sourced.mono grown, fun id outstanding =>
        kept.none id (outstanding.before.resolve_left (by simp [announced]))⟩

theorem staysPursued_iff_answered : StaysPursued sr s action ↔ Answered sr s action := by
  cases action with
  | receive id data =>
      have after : (∀ t, HeaderRequests.step sr s (.receive id data) = some t → Pursued t id) ↔ id ∈ s.pendingHeaderInv := by
        simp [HeaderRequests.step, pursued_onHeaderReceived]
      rw [StaysPursued, after, Answered, Pursued]
      tauto
  | inv | tick => rfl

end Run

/-- No announced header is forgotten in a run that brings the queue to no limit, and no other delivery ends
the pursuit of an id, exactly if whatever comes under an id that is in flight and not in the queue is its
header. -/
theorem none_forgotten_iff (sr : SigmaRust) (start : HeaderSync) (fresh : start.pendingHeaders = .new)
    {actions : List HeaderRequests.Action} (roomy : Along (HeaderRequests.step sr) Roomy (.new start) actions) :
    Always (recorded (HeaderRequests.step sr)) (NoneForgotten sr start) (.new start, []) actions ∧
        Along (HeaderRequests.step sr) (StaysPursued sr) (.new start) actions ↔
      Along (HeaderRequests.step sr) (Answered sr) (.new start) actions := by
  have same : StaysPursued sr = Answered sr := funext₂ fun _ _ => propext staysPursued_iff_answered
  rw [same]
  refine and_iff_right_of_imp fun answered => ?_
  have both : Along (HeaderRequests.step sr) (fun s action => Answered sr s action ∧ Roomy s action) (.new start) actions :=
    fun before action prefixed s ran => ⟨answered before action prefixed s ran, roomy before action prefixed s ran⟩
  have begun : Pursuing sr start (.new start, []) := by
    refine ⟨⟨fun here => ?_, fun id member => .inl member⟩, fun id outstanding => ?_⟩
    · simp [HeaderRequests.new, fresh, PendingHeadersMap.new] at here
    · exact absurd outstanding.1 List.not_mem_nil
  intro s visited
  refine ((along_recorded both []).invariant (Pursuing sr start) (fun pursuing conditions taken => ?_) begun s visited).none
  obtain ⟨t, next, rfl⟩ := recorded_eq_some taken
  exact pursuing.step conditions.1 conditions.2 next

section Samples
open Sample

def emptySync : HeaderSync := .new (.new ⟨Database.empty.columns, []⟩) [] lastFirst

def askedFor : List Bytes := [(minedHeader 11 0 1).id.bytes, (minedHeader 12 11 2).id.bytes]

def patientActions : List HeaderRequests.Action :=
  [.inv 0 askedFor, .tick ⟨20000, askedFor, true, true⟩, .receive (minedHeader 11 0 1).id.bytes []]

theorem patientActions_none_forgotten :
    Always (recorded (HeaderRequests.step goodCodec)) (NoneForgotten goodCodec emptySync) (.new emptySync, []) patientActions ∧
      Along (HeaderRequests.step goodCodec) (StaysPursued goodCodec) (.new emptySync) patientActions :=
  (none_forgotten_iff goodCodec emptySync rfl (by decide)).mpr (by decide)

def spoiledActions : List HeaderRequests.Action :=
  [.inv 0 askedFor, .receive (minedHeader 11 0 1).id.bytes [0, 0]]

theorem spoiledRequest_forgotten :
    Along (HeaderRequests.step goodCodec) Roomy (.new emptySync) spoiledActions ∧
    ¬ (Always (recorded (HeaderRequests.step goodCodec)) (NoneForgotten goodCodec emptySync) (.new emptySync, []) spoiledActions ∧
      Along (HeaderRequests.step goodCodec) (StaysPursued goodCodec) (.new emptySync) spoiledActions) := by
  refine ⟨by decide, fun claimed => ?_⟩
  obtain ⟨t, ran⟩ : ∃ t, run (recorded (HeaderRequests.step goodCodec)) (.new emptySync, []) spoiledActions = some t := ⟨_, rfl⟩
  have last : t = (run (recorded (HeaderRequests.step goodCodec)) (.new emptySync, []) spoiledActions).getD
      (.new emptySync, []) := by
    rw [ran]
    rfl
  have outstanding : Outstanding goodCodec emptySync t.2 (minedHeader 11 0 1).id.bytes := by
    rw [last]
    refine ⟨by decide, by decide, fun header rawBytes received => ?_⟩
    have spoiled : rawBytes = [0, 0] := List.mem_singleton.mp received.member
    have parsed := received.parsed
    rw [spoiled] at parsed
    cases parsed
  have pursued := claimed.1 t ⟨_, List.prefix_rfl, ran⟩ _ outstanding
  rw [last] at pursued
  exact absurd pursued (by unfold Pursued; decide)

end Samples

end ErgoNode.Proof.Sync
