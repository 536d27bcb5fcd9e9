import ErgoNode.Proof.Network.Reading

/-!
# Which payloads are decoded without a panic

A decoder trusts the counts and lengths that a peer wrote. It is safe on a payload exactly when the
fixed fields are there, the announced number of entries fits into the bytes behind it, and no length
field claims an end past the largest position.
-/

namespace ErgoNode.Proof.Network
open Lib

variable {justified : Room → Prop} {c d : Cursor}

/-! ### Walking over length fields -/

/-- The ends that the length fields of at most `count` entries claim, and the cursor behind the
entries. Before each length stand `before` other bytes. -/
def walkSized (before : Nat) : Nat → Cursor → List Nat × Option Cursor
  | 0, c => ([], some c)
  | more + 1, c =>
      if c.rest = [] then ([], some c)
      else
        match Vlq.decode (c.skip before).rest with
        | .error _ => ([], none)
        | .ok (len, used) =>
            let d := (c.skip before).skip used
            if len ≤ d.rest.length then
              ((d.pos + len) :: (walkSized before more (d.skip len)).1, (walkSized before more (d.skip len)).2)
            else ([d.pos + len], none)

def Fits (ends : List Nat) : Prop := ∀ stop ∈ ends, stop < 2 ^ 64

instance (ends : List Nat) : Decidable (Fits ends) := inferInstanceAs (Decidable (∀ stop ∈ ends, _))

@[simp] theorem fits_nil : Fits [] := nofun

@[simp] theorem fits_cons {stop : Nat} {ends : List Nat} : Fits (stop :: ends) ↔ stop < 2 ^ 64 ∧ Fits ends := by
  simp [Fits]

@[simp] theorem fits_append {ends more : List Nat} : Fits (ends ++ more) ↔ Fits ends ∧ Fits more := by
  simp only [Fits, List.forall_mem_append]

structure ReadsSized {A : Type} (before : Nat) (step : Read NetworkError (Option A)) : Prop where
  stop : ∀ {c}, c.rest = [] → step.exec c = ⟨.ok (none, c), []⟩
  broken : ∀ {c fault}, c.rest ≠ [] → Vlq.decode (c.skip before).rest = .error fault →
    ∃ e, step.exec c = ⟨.error (.error e), []⟩
  wraps : ∀ {c d len used}, c.rest ≠ [] → Vlq.decode (c.skip before).rest = .ok (len, used) →
    (c.skip before).skip used = d → 2 ^ 64 ≤ d.pos + len → step.exec c = ⟨.error .panic, []⟩
  entry : ∀ {c d len used}, c.rest ≠ [] → Vlq.decode (c.skip before).rest = .ok (len, used) →
    (c.skip before).skip used = d → d.pos + len < 2 ^ 64 → len ≤ d.rest.length →
    ∃ a, step.exec c = ⟨.ok (some a, d.skip len), []⟩
  short : ∀ {c d len used}, c.rest ≠ [] → Vlq.decode (c.skip before).rest = .ok (len, used) →
    (c.skip before).skip used = d → d.pos + len < 2 ^ 64 → ¬ len ≤ d.rest.length →
    step.exec c = ⟨.ok (none, d), []⟩ ∨ ∃ e, step.exec c = ⟨.error (.error e), []⟩

section Collect
variable {A : Type} {step : Read NetworkError (Option A)} {more : Nat}

theorem collect_none (stopped : step.exec c = ⟨.ok (none, d), []⟩) :
    (Read.collect step (more + 1)).exec c = ⟨.ok ([], d), []⟩ :=
  Read.exec_bind_of_ok stopped

theorem collect_some {a : A} (given : step.exec c = ⟨.ok (some a, d), []⟩) :
    (Read.collect step (more + 1)).exec c = ((a :: ·) <$> Read.collect step more).exec d :=
  Read.exec_bind_of_ok given

theorem collect_error {stop : Stop NetworkError} (failed : step.exec c = ⟨.error stop, []⟩) :
    (Read.collect step (more + 1)).exec c = ⟨.error stop, []⟩ :=
  Read.exec_bind_of_error failed

end Collect

theorem ReadsSized.safe_collect {A : Type} {before count : Nat} {step : Read NetworkError (Option A)}
    (sized : ReadsSized before step) :
    (Read.collect step count).Safe justified c ↔ Fits (walkSized before count c).1 := by
  induction count generalizing c with
  | zero => simp [Read.collect, walkSized]
  | succ more ih =>
      by_cases empty : c.rest = []
      · simp [Read.Safe, collect_none (sized.stop empty), walkSized, empty]
      · cases field : Vlq.decode (c.skip before).rest with
        | error fault =>
            obtain ⟨e, failed⟩ := sized.broken empty field
            simp [Read.Safe, collect_error failed, walkSized, empty, field]
        | ok number =>
            obtain ⟨len, used⟩ := number
            obtain ⟨d, next⟩ : ∃ d, (c.skip before).skip used = d := ⟨_, rfl⟩
            by_cases below : d.pos + len < 2 ^ 64
            · by_cases enough : len ≤ d.rest.length
              · obtain ⟨a, given⟩ := sized.entry empty field next below enough
                rw [Read.safe_congr (collect_some given), Read.safe_map, ih]
                simp only [walkSized, empty, if_false, field, next, enough, if_true, fits_cons, below, true_and]
              · have ends : Fits (walkSized before (more + 1) c).1 := by
                  simpa only [walkSized, empty, if_false, field, next, enough, fits_cons, fits_nil, and_true]
                rcases sized.short empty field next below enough with stopped | ⟨e, failed⟩
                · simp [Read.Safe, collect_none stopped, ends]
                · simp [Read.Safe, collect_error failed, ends]
            · have wraps : (Read.collect step (more + 1)).exec c = ⟨.error .panic, []⟩ :=
                collect_error (sized.wraps empty field next (Nat.le_of_not_lt below))
              have past : ¬ Fits (walkSized before (more + 1) c).1 := by
                simp only [walkSized, empty, if_false, field, next]
                split <;> exact fun fits => below (fits_cons.mp fits).1
              simp [Read.Safe, wraps, past]

theorem decoded_below {bytes : Bytes} {value used : Nat} (decoded : Vlq.decode bytes = .ok (value, used)) :
    value < 2 ^ 64 := (Vlq.decode_eq_ok decoded).2.2.1

theorem exec_readHeader (nonempty : c.rest ≠ []) :
    readHeader.exec c =
      (readVlqAs (inContext "Failed to decode header length") >>= Read.span (2 ^ 64)).exec (c.skip 0) := by
  rw [readHeader, Read.exec_bind_of_ok (Read.exec_look c), if_neg nonempty]
  rfl

theorem readsSized_header : ReadsSized 0 readHeader where
  stop empty := by rw [readHeader, Read.exec_bind_of_ok (Read.exec_look _), if_pos empty, Read.exec_pure]
  broken nonempty field :=
    ⟨_, by rw [exec_readHeader nonempty, Read.exec_bind_of_error (exec_readVlqAs_error field)]⟩
  wraps nonempty field next past := by
    subst next
    rw [exec_readHeader nonempty, Read.exec_bind_of_ok (exec_readVlqAs field)]
    exact Read.span_wraps (decoded_below field) past
  entry nonempty field next below enough := by
    subst next
    rw [exec_readHeader nonempty, Read.exec_bind_of_ok (exec_readVlqAs field), Read.span_found below enough]
    exact ⟨_, rfl⟩
  short nonempty field next below short := by
    subst next
    rw [exec_readHeader nonempty, Read.exec_bind_of_ok (exec_readVlqAs field), Read.span_missed below short]
    exact .inl rfl

def keepFeature (id : UInt8) : Option Bytes → Read NetworkError (Option PeerFeature)
  | none => Read.fail (.invalidMessage "Truncated feature data")
  | some data => return some (.parseData id data)

theorem exec_readFeature (nonempty : c.rest ≠ []) : ∃ featureId, readFeature.exec c =
    (readVlqAs id >>= fun len => Read.span (2 ^ 64) len >>= keepFeature featureId).exec (c.skip 1) := by
  obtain ⟨featureId, rest, split⟩ := List.exists_cons_of_ne_nil nonempty
  have first : c.rest.head? = some featureId := by rw [split, List.head?_cons]
  refine ⟨featureId, ?_⟩
  rw [readFeature, Read.exec_bind_of_ok (Read.exec_look c), if_neg nonempty,
    Read.exec_bind_of_ok (Read.exec_byte first)]
  rfl

theorem readsSized_feature : ReadsSized 1 readFeature where
  stop empty := by rw [readFeature, Read.exec_bind_of_ok (Read.exec_look _), if_pos empty, Read.exec_pure]
  broken nonempty field := by
    obtain ⟨featureId, read⟩ := exec_readFeature nonempty
    exact ⟨_, by rw [read, Read.exec_bind_of_error (exec_readVlqAs_error field)]⟩
  wraps nonempty field next past := by
    obtain ⟨featureId, read⟩ := exec_readFeature nonempty
    subst next
    rw [read, Read.exec_bind_of_ok (exec_readVlqAs field),
      Read.exec_bind_of_error (Read.span_wraps (decoded_below field) past)]
  entry nonempty field next below enough := by
    obtain ⟨featureId, read⟩ := exec_readFeature nonempty
    subst next
    rw [read, Read.exec_bind_of_ok (exec_readVlqAs field),
      Read.exec_bind_of_ok (Read.span_found below enough)]
    exact ⟨_, rfl⟩
  short nonempty field next below short := by
    obtain ⟨featureId, read⟩ := exec_readFeature nonempty
    subst next
    rw [read, Read.exec_bind_of_ok (exec_readVlqAs field),
      Read.exec_bind_of_ok (Read.span_missed below short)]
    exact .inr ⟨_, rfl⟩

/-! ### Peers -/

def skipFixed (c : Cursor) : Option Cursor :=
  (skipString c).bind fun c => (jump 3 c).bind fun c => (skipString c).bind skipDeclaredAddr

theorem gives_fixed : skipFixed c = some d ↔
    ∃ agentName c₁, (readShortString "Truncated PeerSpec" "Truncated agent name").Gives c agentName c₁ ∧
      ∃ version c₂, readVersion.Gives c₁ version c₂ ∧
        ∃ peerName c₃, (readShortString "Truncated PeerSpec" "Truncated peer name").Gives c₂ peerName c₃ ∧
          ∃ declaredAddr, readDeclaredAddr.Gives c₃ declaredAddr d := by
  simp only [skipFixed, Option.bind_eq_some_iff]
  constructor
  · rintro ⟨c₁, agent, c₂, version, c₃, peer, address⟩
    obtain ⟨agentName, agent⟩ := gives_readShortString.mpr agent
    obtain ⟨version, versioned⟩ := gives_readVersion.mpr version
    obtain ⟨peerName, peer⟩ := gives_readShortString.mpr peer
    exact ⟨agentName, c₁, agent, version, c₂, versioned, peerName, c₃, peer, gives_readDeclaredAddr.mpr address⟩
  · rintro ⟨agentName, c₁, agent, version, c₂, versioned, peerName, c₃, peer, address⟩
    exact ⟨c₁, gives_readShortString.mp ⟨agentName, agent⟩, c₂, gives_readVersion.mp ⟨version, versioned⟩, c₃,
      gives_readShortString.mp ⟨peerName, peer⟩, gives_readDeclaredAddr.mp address⟩

theorem safe_parse : PeerSpec.parse.Safe justified c ↔
    ∀ d, skipFixed c = some d → readFeatures.Safe justified d := by
  simp only [PeerSpec.parse, gives_fixed, Read.safe_bind, safe_readShortString, safe_readVersion,
    safe_readDeclaredAddr, Read.safe_pure, implies_true, and_true, true_and]
  constructor
  · rintro safe d ⟨agentName, c₁, agent, version, c₂, versioned, peerName, c₃, peer, declaredAddr, address⟩
    exact safe agentName c₁ agent version c₂ versioned peerName c₃ peer declaredAddr d address
  · intro safe agentName c₁ agent version c₂ versioned peerName c₃ peer declaredAddr d address
    exact safe d ⟨agentName, c₁, agent, version, c₂, versioned, peerName, c₃, peer, declaredAddr, address⟩

theorem gives_parse : (∃ spec, PeerSpec.parse.Gives c spec d) ↔
    ∃ e, skipFixed c = some e ∧ ∃ features, readFeatures.Gives e features d := by
  simp only [PeerSpec.parse, gives_fixed, Read.gives_bind, Read.gives_pure]
  constructor
  · rintro ⟨_, agentName, c₁, agent, version, c₂, versioned, peerName, c₃, peer, declaredAddr, e, address,
      features, _, read, -, rfl⟩
    exact ⟨e, ⟨agentName, c₁, agent, version, c₂, versioned, peerName, c₃, peer, declaredAddr, address⟩,
      features, read⟩
  · rintro ⟨e, ⟨agentName, c₁, agent, version, c₂, versioned, peerName, c₃, peer, declaredAddr, address⟩,
      features, read⟩
    exact ⟨_, agentName, c₁, agent, version, c₂, versioned, peerName, c₃, peer, declaredAddr, e, address,
      features, d, read, rfl, rfl⟩

theorem ReadsFeature.short {len used : Nat} (nonempty : c.rest ≠ [])
    (field : Vlq.decode (c.skip 1).rest = .ok (len, used)) (below : ((c.skip 1).skip used).pos + len < 2 ^ 64)
    (short : ¬ len ≤ ((c.skip 1).skip used).rest.length) :
    ∃ e, readFeature.exec c = ⟨.error (.error e), []⟩ := by
  obtain ⟨featureId, read⟩ := exec_readFeature nonempty
  rw [read, Read.exec_bind_of_ok (exec_readVlqAs field), Read.exec_bind_of_ok (Read.span_missed below short)]
  exact ⟨_, rfl⟩

theorem gives_collectFeatures {count : Nat} (fits : Fits (walkSized 1 count c).1) :
    (∃ features, (Read.collect readFeature count).Gives c features d) ↔
      (walkSized 1 count c).2 = some d := by
  induction count generalizing c with
  | zero => simp [Read.collect, walkSized]
  | succ more ih =>
      by_cases empty : c.rest = []
      · simp [Read.Gives, collect_none (readsSized_feature.stop empty), walkSized, empty]
      · cases field : Vlq.decode (c.skip 1).rest with
        | error fault =>
            obtain ⟨e, failed⟩ := readsSized_feature.broken empty field
            simp [Read.Gives, collect_error failed, walkSized, empty, field]
        | ok number =>
            obtain ⟨len, used⟩ := number
            by_cases enough : len ≤ ((c.skip 1).skip used).rest.length
            · simp only [walkSized, empty, if_false, field, enough, if_true, fits_cons] at fits ⊢
              obtain ⟨a, given⟩ := readsSized_feature.entry empty field rfl fits.1 enough
              rw [← ih fits.2]
              unfold Read.Gives
              rw [collect_some given]
              constructor
              · rintro ⟨features, read⟩
                obtain ⟨later, read, -⟩ := Read.gives_map.mp read
                exact ⟨later, read⟩
              · rintro ⟨later, read⟩
                exact ⟨a :: later, Read.gives_map.mpr ⟨later, read, rfl⟩⟩
            · simp only [walkSized, empty, if_false, field, enough, fits_cons] at fits ⊢
              obtain ⟨e, failed⟩ := ReadsFeature.short empty field fits.1 enough
              simp [Read.Gives, collect_error failed]

def walkPeer (c : Cursor) : List Nat × Option Cursor :=
  match skipFixed c with
  | none => ([], none)
  | some d =>
      match d.rest with
      | [] => ([], some d)
      | count :: _ => walkSized 1 count.toNat (d.skip 1)

def walkPeers : Nat → Cursor → List Nat
  | 0, _ => []
  | more + 1, c =>
      (walkPeer c).1 ++ match (walkPeer c).2 with
        | none => []
        | some d => walkPeers more d

theorem safe_readFeatures : readFeatures.Safe justified c ↔
    ∀ count rest, c.rest = count :: rest → Fits (walkSized 1 count.toNat (c.skip 1)).1 := by
  obtain ⟨pos, rest⟩ := c
  cases rest with
  | nil => simp [readFeatures]
  | cons count rest => simp [readFeatures, readsSized_feature.safe_collect]

theorem safe_peer : PeerSpec.parse.Safe justified c ↔ Fits (walkPeer c).1 := by
  rw [safe_parse, walkPeer]
  cases skipFixed c with
  | none => simp
  | some d =>
      obtain ⟨pos, rest⟩ := d
      cases rest with
      | nil => simp [safe_readFeatures]
      | cons count rest => simp [safe_readFeatures]

theorem gives_peer (fits : Fits (walkPeer c).1) :
    (∃ spec, PeerSpec.parse.Gives c spec d) ↔ (walkPeer c).2 = some d := by
  rw [gives_parse]
  unfold walkPeer at fits ⊢
  revert fits
  cases skipFixed c with
  | none => simp
  | some e =>
      intro fits
      obtain ⟨pos, rest⟩ := e
      cases rest with
      | nil => simp [readFeatures]
      | cons count rest => simp [readFeatures, gives_collectFeatures fits]

theorem safe_peers {count : Nat} :
    (Read.repeated PeerSpec.parse count).Safe justified c ↔ Fits (walkPeers count c) := by
  induction count generalizing c with
  | zero => simp [Read.repeated, Read.collect, walkPeers]
  | succ more ih =>
      rw [Read.repeated, Read.collect, Read.safe_bind, Read.safe_map, safe_peer, walkPeers, fits_append]
      refine and_congr_right fun fits => ?_
      cases last : (walkPeer c).2 with
      | none =>
          refine iff_of_true ?_ fits_nil
          intro found d given
          obtain ⟨spec, given, -⟩ := Read.gives_map.mp given
          cases last.symm.trans ((gives_peer fits).mp ⟨spec, given⟩)
      | some d =>
          rw [← ih]
          constructor
          · intro next
            obtain ⟨spec, given⟩ := (gives_peer fits).mpr last
            exact (Read.safe_bind.mp (next (some spec) d (Read.gives_map.mpr ⟨spec, given, rfl⟩))).1
          · intro safe found e given
            obtain ⟨spec, parsed, rfl⟩ := Read.gives_map.mp given
            cases last.symm.trans ((gives_peer fits).mp ⟨spec, parsed⟩)
            exact Read.safe_bind.mpr ⟨safe, fun _ _ _ => Read.safe_pure⟩

/-! ### Messages -/

def announcesHeaders (payload : Bytes) : Bool :=
  match Vlq.decode payload with
  | .ok (count, used) => count = 0 ∧ (payload.drop used).head? = some 0xFF
  | .error _ => false

/-- The fewest bytes that so many entries take. The last of some peers may end after its names. -/
def leastBytes (payload : Bytes) : MessageType → Nat → Nat
  | .peers, count => 7 * count - 2
  | .syncInfo, count => if announcesHeaders payload then count else 32 * count
  | .inv, count => 32 * count
  | .requestModifier, count => 32 * count
  | .modifier, count => 33 * count
  | .snapshotsInfo, count => 36 * count
  | _, _ => 0

def Justified (payload : Bytes) (type : MessageType) (room : Room) : Prop :=
  leastBytes payload type room.count ≤ room.remaining

/-- The entries that are announced can be there, and a vector can hold as many. -/
def Announced (least count size : Nat) (rest : Bytes) : Prop := count * size ≤ isizeMax ∧ least ≤ rest.length

def HeadersFit (c : Cursor) : Prop :=
  match c.rest with
  | [] => True
  | count :: rest =>
      Announced count.toNat count.toNat bytesSize rest ∧ Fits (walkSized 0 count.toNat (c.skip 1)).1

def Decodable (payload : Bytes) : MessageType → Prop
  | .handshake => 4 ≤ payload.length
  | .peers => ∀ count used, Vlq.decode payload = .ok (count, used) →
      Announced (7 * count - 2) count peerSpecSize (payload.drop used) ∧
        Fits (walkPeers count ⟨used, payload.drop used⟩)
  | .syncInfo => ∀ count used, Vlq.decode payload = .ok (count, used) →
      if announcesHeaders payload then HeadersFit ⟨used + 1, payload.drop (used + 1)⟩
      else Announced (32 * count) count bytesSize (payload.drop used)
  | .inv => payload ≠ [] ∧ ∀ count used, Vlq.decode payload.tail = .ok (count, used) →
      Announced (32 * count) count bytesSize (payload.tail.drop (Vlq.byteLen count))
  | .requestModifier => payload ≠ [] ∧ ∀ count used, Vlq.decode payload.tail = .ok (count, used) →
      Announced (32 * count) count bytesSize (payload.tail.drop (Vlq.byteLen count))
  | .modifier => payload ≠ [] ∧ ∀ count used, Vlq.decode payload.tail = .ok (count, used) →
      Announced (33 * count) count modifierItemSize (payload.tail.drop used)
  | .snapshotsInfo => ∀ count used, Vlq.decode payload = .ok (count, used) →
      count ≤ maxSnapshotsInfoEntries → 36 * count ≤ (payload.drop used).length
  | _ => True

@[simp] theorem safe_readId : readId.Safe justified c := by
  simp [readId]

@[simp] theorem safe_readIds {count : Nat} :
    (readIds count).Safe justified c ↔ count * bytesSize ≤ isizeMax ∧ justified ⟨count, c.rest.length⟩ := by
  simp [readIds, Read.safe_collect fun _ => safe_readId]

@[simp] theorem safe_readSized {reason : Nat → Nat → String} {len : Nat} :
    (readSized reason len).Safe justified c := by
  simp [readSized]

@[simp] theorem safe_readModifierItem : readModifierItem.Safe justified c := by
  simp [readModifierItem]

@[simp] theorem safe_readManifestEntry : readManifestEntry.Safe justified c := by
  simp [readManifestEntry, Cursor.skip]
  omega

@[simp] theorem safe_readSnapshotId {reason : String} : (readSnapshotId reason).Safe justified c := by
  simp [readSnapshotId]

@[simp] theorem safe_readSnapshotData {name : String} {max : Nat} :
    (readSnapshotData name max).Safe justified c := by
  simp [readSnapshotData]

theorem safe_readHandshake {json : SerdeJson} : (readHandshake json).Safe justified c ↔ 4 ≤ c.rest.length := by
  simp [readHandshake]

theorem safe_readInventory : readInventory.Safe justified c ↔
    c.rest ≠ [] ∧ ∀ count used, Vlq.decode c.rest.tail = .ok (count, used) →
      count * bytesSize ≤ isizeMax ∧ justified ⟨count, (c.rest.tail.drop (Vlq.byteLen count)).length⟩ := by
  obtain ⟨pos, rest⟩ := c
  cases rest with
  | nil => simp [readInventory]
  | cons typeId rest =>
      simp only [readInventory, Cursor.skip, Read.safe_bind, Read.safe_byte, Read.gives_byte, Read.safe_look,
        Read.gives_look, Read.safe_ofExcept, Read.gives_ofExcept, Read.safe_advance, Read.gives_advance,
        safe_readIds, Read.safe_pure, implies_true, and_true, true_and, List.tail_cons]
      refine and_congr_right fun _ => ?_
      constructor
      · intro safe count used decoded
        exact (safe typeId _ ⟨rfl, rfl⟩ _ _ ⟨rfl, rfl⟩ (count, used) _ ⟨vlqDecode_ok.mpr decoded, rfl⟩).2 () _
          ⟨byteLen_fits decoded, rfl⟩
      · rintro fits _ _ ⟨-, rfl⟩ _ _ ⟨rfl, rfl⟩ ⟨count, used⟩ _ ⟨decoded, rfl⟩
        refine ⟨byteLen_fits (vlqDecode_ok.mp decoded), ?_⟩
        rintro _ _ ⟨-, rfl⟩
        exact fits count used (vlqDecode_ok.mp decoded)

theorem safe_readModifiers : readModifiers.Safe justified c ↔
    c.rest ≠ [] ∧ ∀ count used, Vlq.decode c.rest.tail = .ok (count, used) →
      count * modifierItemSize ≤ isizeMax ∧ justified ⟨count, (c.rest.tail.drop used).length⟩ := by
  obtain ⟨pos, rest⟩ := c
  cases rest with
  | nil => simp [readModifiers]
  | cons typeId rest =>
      simp [readModifiers, Cursor.skip, Read.safe_repeated fun _ => safe_readModifierItem]

theorem safe_snapshotsInfo : SnapshotsInfo.parse.Safe justified c ↔
    ∀ count used, Vlq.decode c.rest = .ok (count, used) → count ≤ maxSnapshotsInfoEntries →
      count * manifestEntrySize ≤ isizeMax ∧ justified ⟨count, (c.rest.drop used).length⟩ := by
  obtain ⟨pos, rest⟩ := c
  cases rest with
  | nil => simp [SnapshotsInfo.parse, Vlq.decode, Vlq.decodeLoop]
  | cons byte rest =>
      simp [SnapshotsInfo.parse, Cursor.skip, Read.safe_repeated fun _ => safe_readManifestEntry]

theorem safe_readPeers : readPeers.Safe justified c ↔
    ∀ count used, Vlq.decode c.rest = .ok (count, used) →
      (count * peerSpecSize ≤ isizeMax ∧ justified ⟨count, (c.rest.drop used).length⟩) ∧
        Fits (walkPeers count (c.skip used)) := by
  simp only [readPeers, Read.safe_bind, safe_readVlq, gives_readVlq, Read.safe_withCapacity,
    Read.gives_withCapacity, safe_peers, true_and]
  constructor
  · intro safe count used decoded
    obtain ⟨room, peers⟩ := safe count _ ⟨used, decoded, rfl⟩
    exact ⟨room, peers () _ ⟨room.1, rfl⟩⟩
  · rintro fits count _ ⟨used, decoded, rfl⟩
    refine ⟨(fits count used decoded).1, ?_⟩
    rintro _ _ ⟨-, rfl⟩
    exact (fits count used decoded).2

theorem safe_parseV2 : SyncInfo.parseV2.Safe justified c ↔ c.rest ≠ [] ∧
    ∀ count rest, c.rest.tail = count :: rest →
      (count.toNat * bytesSize ≤ isizeMax ∧ justified ⟨count.toNat, rest.length⟩) ∧
        Fits (walkSized 0 count.toNat ((c.skip 1).skip 1)).1 := by
  obtain ⟨pos, rest⟩ := c
  rcases rest with _ | ⟨marker, _ | ⟨count, rest⟩⟩
  · simp [SyncInfo.parseV2]
  · simp [SyncInfo.parseV2, Cursor.skip]
  · simp [SyncInfo.parseV2, Cursor.skip, readsSized_header.safe_collect]
    exact fun room _ => .inl room

theorem safe_syncInfo : SyncInfo.parse.Safe justified c ↔
    ∀ count used, Vlq.decode c.rest = .ok (count, used) →
      if count = 0 ∧ (c.rest.drop used).head? = some 0xFF then SyncInfo.parseV2.Safe justified (c.skip used)
      else count * bytesSize ≤ isizeMax ∧ justified ⟨count, (c.rest.drop used).length⟩ := by
  obtain ⟨pos, rest⟩ := c
  cases rest with
  | nil => simp [SyncInfo.parse, Vlq.decode, Vlq.decodeLoop]
  | cons byte rest =>
      simp only [SyncInfo.parse, Cursor.skip, Read.safe_bind, Read.safe_look, Read.gives_look, Read.safe_ite,
        safe_readVlqAs, gives_readVlqAs, Read.safe_map, safe_readIds, true_and]
      constructor
      · intro safe count used decoded
        have next := (safe _ _ ⟨rfl, rfl⟩).2 (List.cons_ne_nil _ _) count _ ⟨used, decoded, rfl⟩ _ _ ⟨rfl, rfl⟩
        split
        · next marked => exact next.1 marked
        · next plain => exact next.2 plain
      · rintro fits _ _ ⟨rfl, rfl⟩
        refine ⟨fun empty => absurd empty (List.cons_ne_nil _ _), ?_⟩
        rintro _ count _ ⟨used, decoded, rfl⟩ _ _ ⟨rfl, rfl⟩
        have next := fits count used decoded
        split at next
        · next marked => exact ⟨fun _ => next, fun plain => absurd marked plain⟩
        · next plain => exact ⟨fun marked => absurd marked plain, fun _ => next⟩

theorem announcesHeaders_eq {payload : Bytes} {count used : Nat} (decoded : Vlq.decode payload = .ok (count, used)) :
    announcesHeaders payload ↔ count = 0 ∧ (payload.drop used).head? = some 0xFF := by
  simp [announcesHeaders, decoded]

theorem headersFit_iff {payload : Bytes} {used : Nat} (announced : announcesHeaders payload)
    (marked : (payload.drop used).head? = some 0xFF) :
    SyncInfo.parseV2.Safe (Justified payload .syncInfo) ⟨used, payload.drop used⟩ ↔
      HeadersFit ⟨used + 1, payload.drop (used + 1)⟩ := by
  rw [safe_parseV2, HeadersFit, List.tail_drop]
  obtain ⟨rest, split⟩ : ∃ rest, payload.drop used = 0xFF :: rest := List.head?_eq_some_iff.mp marked
  have after : payload.drop (used + 1) = rest := by rw [← List.tail_drop, split, List.tail_cons]
  rw [split, after]
  cases rest with
  | nil => simp
  | cons count rest => simp [Announced, Justified, leastBytes, announced, Cursor.skip]

theorem safe_read {json : SerdeJson} {payload : Bytes} {type : MessageType} :
    (Message.read json type).Safe (Justified payload type) ⟨0, payload⟩ ↔ Decodable payload type := by
  cases type with
  | handshake => simp [Message.read, safe_readHandshake, Decodable]
  | getPeers => simp [Message.read, Decodable]
  | peers => simp [Message.read, safe_readPeers, Decodable, Announced, Justified, leastBytes, Cursor.skip]
  | syncInfo =>
      rw [Message.read, Read.safe_map, safe_syncInfo, Decodable]
      refine forall₂_congr fun count used => imp_congr_right fun decoded => ?_
      by_cases announced : announcesHeaders payload
      · have marked := (announcesHeaders_eq decoded).mp announced
        rw [if_pos marked, if_pos announced, ← headersFit_iff announced marked.2]
        simp [Cursor.skip]
      · rw [if_neg (mt (announcesHeaders_eq decoded).mpr announced), if_neg announced]
        simp [Announced, Justified, leastBytes, announced]
  | inv => simp [Message.read, safe_readInventory, Decodable, Announced, Justified, leastBytes]
  | requestModifier => simp [Message.read, safe_readInventory, Decodable, Announced, Justified, leastBytes]
  | modifier => simp [Message.read, safe_readModifiers, Decodable, Announced, Justified, leastBytes]
  | getSnapshotsInfo => simp [Message.read, Decodable]
  | snapshotsInfo =>
      rw [Message.read, Read.safe_map, safe_snapshotsInfo, Decodable]
      refine forall₂_congr fun count used => forall₂_congr fun _ few => ?_
      have small : count * manifestEntrySize ≤ isizeMax := by
        unfold maxSnapshotsInfoEntries at few
        unfold manifestEntrySize isizeMax
        omega
      exact and_iff_right small
  | getManifest => simp [Message.read, Decodable]
  | manifest => simp [Message.read, Decodable]
  | getUtxoSnapshotChunk => simp [Message.read, Decodable]
  | utxoSnapshotChunk => simp [Message.read, Decodable]

/-! ### Every payload -/

/-- Decoding ends with a message or an error, and asks for no more room than the payload justifies. -/
def DecodesSafely (json : SerdeJson) (code : UInt8) (payload : Bytes) : Prop :=
  (Message.decode json (code :: payload)).result ≠ .error .panic ∧
    ∀ room ∈ (Message.decode json (code :: payload)).rooms,
      ∃ type, MessageType.ofByte code = .ok type ∧ Justified payload type room

theorem decodesSafely_iff (json : SerdeJson) (code : UInt8) (payload : Bytes) :
    DecodesSafely json code payload ↔
      ∀ type, MessageType.ofByte code = .ok type → Decodable payload type := by
  unfold DecodesSafely
  cases known : MessageType.ofByte code with
  | error e => simp [Message.decode, known]
  | ok type =>
      simp only [Message.decode, known, Except.ok.injEq, exists_eq_left', forall_eq']
      exact safe_read

def noJson : SerdeJson := ⟨fun _ => .error "none", fun _ => .error "none"⟩

/-- A handshake without its length, an inventory that announces 2 ^ 62 ids, and a peer with a feature
of 2 ^ 64 - 1 bytes end with a panic. -/
theorem peers_panic :
    (Message.decode noJson [75]).result = .error .panic ∧
      (Message.decode noJson (55 :: 2 :: Vlq.encode (2 ^ 62))).result = .error .panic ∧
      (Message.decode noJson ([2, 1, 0, 6, 0, 1, 0, 0, 1, 9] ++ Vlq.encode (2 ^ 64 - 1))).result = .error .panic ∧
      ¬ ∀ json code payload, DecodesSafely json code payload :=
  ⟨rfl, rfl, rfl, fun always => (always noJson 75 []).1 rfl⟩

end ErgoNode.Proof.Network
