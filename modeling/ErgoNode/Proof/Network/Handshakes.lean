import ErgoNode.Network.Message
import ErgoNode.Network.Handshake
import ErgoNode.Proof.Network.RoundTrip
import ErgoNode.Proof.Network.Safety

/-!
# Handshakes

A handshake does not say where it ends, and one that ends before its address or its features is as good
as a whole one. So a reader that has got a part of a handshake may take it for a shorter one.
-/

namespace ErgoNode.Proof.Network
open Lib

/-! ### Round trips -/

theorem gives_texts {noLength noText noLength' noText' text : String} {c d : Cursor} :
    (readShortString noLength noText).Gives c text d ↔ (readShortString noLength' noText').Gives c text d := by
  simp only [readShortString, Read.gives_bind, gives_require]

theorem gives_handshake {h : HandshakeData} {c d : Cursor} : HandshakeData.read.Gives c h d ↔
    ∃ time e, readVlq.Gives c time e ∧ UInt64.ofNat time = h.time ∧
      PeerSpec.parse.Gives e (PeerSpec.fromHandshake h) d := by
  simp only [HandshakeData.read, PeerSpec.parse, Read.gives_bind, Read.gives_pure]
  constructor
  · rintro ⟨time, e, readTime, agentName, f, agent, version, g, triple, peerName, i, peer, addr, j, declared,
      features, k, all, rfl, rfl⟩
    exact ⟨time, e, readTime, rfl, agentName, f, gives_texts.mp agent, version, g, triple, peerName, i,
      gives_texts.mp peer, addr, j, declared, features, k, all, rfl, rfl⟩
  · rintro ⟨time, e, readTime, same, agentName, f, agent, version, g, triple, peerName, i, peer, addr, j,
      declared, features, k, all, whole, rfl⟩
    obtain ⟨time', agentName', version', peerName', addr', features'⟩ := h
    cases same
    cases whole
    exact ⟨time, e, readTime, _, f, gives_texts.mp agent, _, g, triple, _, i, gives_texts.mp peer, _, j,
      declared, _, k, all, rfl, rfl⟩

theorem parse_eq_ok {h : HandshakeData} {data : Bytes} : HandshakeData.parse data = .ok h ↔
    data.length ≤ maxHandshakeSize ∧ ∃ d, HandshakeData.read.Gives ⟨0, data⟩ h d := by
  unfold HandshakeData.parse Read.Gives
  split
  · next large => simp [Nat.not_le.mpr large]
  · next fits =>
      cases (HandshakeData.read.exec ⟨0, data⟩).result with
      | error stop => simp [Except.map]
      | ok given => simp [Except.map, Prod.ext_iff, Nat.not_lt.mp fits]

theorem small_of_size {n : Nat} (fits : n ≤ maxHandshakeSize) : n < 2 ^ 64 :=
  Nat.lt_of_le_of_lt fits (by decide)

theorem parse_serialize {h : HandshakeData} {more : Bytes} : HandshakeData.parse (h.serialize ++ more) = .ok h ↔
    PlainPeer (PeerSpec.fromHandshake h) ∧ (h.serialize ++ more).length ≤ maxHandshakeSize := by
  rw [parse_eq_ok, and_comm]
  refine and_congr_left fun fits => ?_
  have small := small_of_size fits
  simp only [HandshakeData.serialize, List.length_append, List.append_assoc] at small ⊢
  have reads : readVlq.Reads (2 ^ 64) (Vlq.encode h.time.toNat) h.time.toNat := reads_vlq h.time.toNat_lt
  have time := reads 0 ((PeerSpec.fromHandshake h).serialize ++ more) (by rw [List.length_append]; omega)
  constructor
  · rintro ⟨d, given⟩
    obtain ⟨_, _, readTime, -, peer⟩ := gives_handshake.mp given
    obtain ⟨rfl, rfl⟩ := readTime.unique time
    exact plain_of_gives (by omega) peer
  · intro plain
    exact ⟨_, gives_handshake.mpr ⟨_, _, time, UInt64.ofNat_toNat, reads_peer plain _ _ (by omega)⟩⟩

/-- What is written is read again just where each part fits its field and each feature keeps its kind. -/
theorem reads_back_iff (spec : PeerSpec) (h : HandshakeData) (more : Bytes) :
    (∀ pos, pos + (spec.serialize ++ more).length ≤ isizeMax →
      (PeerSpec.parse.Gives ⟨pos, spec.serialize ++ more⟩ spec ⟨pos + spec.serialize.length, more⟩ ↔
        PlainPeer spec)) ∧
    (HandshakeData.parse (h.serialize ++ more) = .ok h ↔
      PlainPeer (PeerSpec.fromHandshake h) ∧ (h.serialize ++ more).length ≤ maxHandshakeSize) := by
  refine ⟨fun pos within => ?_, parse_serialize⟩
  rw [List.length_append] at within
  exact gives_peer_iff (Nat.lt_of_le_of_lt within (by decide))

def fullHandshake : HandshakeData where
  time := 1700000000000
  agentName := "ergoref"
  version := (6, 0, 1)
  peerName := "node"
  declaredAddr := some ⟨.v6 ⟨List.replicate 16 1, rfl⟩, 9030⟩
  features := [.mode 0 true (some 6) (-1), .session MessageCodec.mainnetMagic 7,
    .localAddress (.v4 ⟨[127, 0, 0, 1], rfl⟩) 9030, .restApiUrl "http://node", .unknown 9 [1, 2]]

theorem fullHandshake_plain : PlainPeer (PeerSpec.fromHandshake fullHandshake) where
  agentName := by decide
  peerName := by decide
  few := by decide
  features := by
    simp [PeerSpec.fromHandshake, fullHandshake, Plain]
    decide

theorem fullHandshake_read :
    PeerSpec.parse.Gives ⟨3, (PeerSpec.fromHandshake fullHandshake).serialize ++ [0, 255]⟩
      (PeerSpec.fromHandshake fullHandshake)
      ⟨3 + (PeerSpec.fromHandshake fullHandshake).serialize.length, [0, 255]⟩ ∧
    HandshakeData.parse (fullHandshake.serialize ++ [0, 255]) = .ok fullHandshake :=
  have back := reads_back_iff (PeerSpec.fromHandshake fullHandshake) fullHandshake [0, 255]
  ⟨(back.1 3 (by decide)).mpr fullHandshake_plain, back.2.mpr ⟨fullHandshake_plain, by decide⟩⟩

def ipv6Peer : PeerSpec :=
  ⟨"ergoref", (6, 0, 1), "node", none, [.localAddress (.v6 ⟨List.replicate 16 1, rfl⟩) 9030]⟩

def ipv6PeerRead : PeerSpec :=
  ⟨"ergoref", (6, 0, 1), "node", none, [.unknown 2 (List.replicate 16 1 ++ [0, 0, 35, 70])]⟩

/-- An IPv6 address is written with sixteen bytes, but only four are read as a local address. -/
theorem ipv6Peer_changed :
    PeerSpec.parse.Gives ⟨0, ipv6Peer.serialize⟩ ipv6PeerRead ⟨ipv6Peer.serialize.length, []⟩ ∧
      ¬ PeerSpec.parse.Gives ⟨0, ipv6Peer.serialize⟩ ipv6Peer ⟨ipv6Peer.serialize.length, []⟩ := by
  have reads : PeerSpec.parse.Reads (2 ^ 64) ipv6Peer.serialize ipv6PeerRead :=
    @reads_peerAs ipv6Peer (by decide) (by decide) (by decide)
  have changed := reads.whole (by decide)
  exact ⟨changed, fun same => absurd (Read.Gives.unique changed same).1 (by decide)⟩

/-! ### Which bytes are parsed safely -/

section Safety
variable {justified : Room → Prop} {c d : Cursor} {id : UInt8} {data : Bytes}

theorem gives_readMode (enough : 3 ≤ data.length) :
    ∃ d, PeerFeature.readMode.Gives ⟨0, data⟩ (PeerFeature.parseData 16 data) d := by
  obtain ⟨stateType, verifying, nipopowOpt, more, rfl⟩ := three_bytes enough
  simp only [PeerFeature.readMode, PeerFeature.parseData, PeerFeature.parseMode, Read.gives_bind, Read.gives_byte,
    Read.gives_look, if_pos]
  by_cases suffix : nipopowOpt = 1 ∧ 4 ≤ more.length
  · simp [suffix, Cursor.skip]
  · simp [suffix, Cursor.skip]
    exact fun one => Nat.lt_of_not_le fun enough => suffix ⟨one, enough⟩

theorem gives_readSession (enough : 5 ≤ data.length) :
    ∃ d, PeerFeature.readSession.Gives ⟨0, data⟩ (PeerFeature.parseData 3 data) d := by
  have four : 4 ≤ data.length := by omega
  simp [PeerFeature.readSession, PeerFeature.parseData, PeerFeature.parseSession, Cursor.skip, enough, four]

theorem gives_readLocalAddress (size : data.length = 8) :
    ∃ d, PeerFeature.readLocalAddress.Gives ⟨0, data⟩ (PeerFeature.parseData 2 data) d := by
  have port : (data.drop 4).take 4 = data.drop 4 := List.take_of_length_le (by simp [size])
  simp [PeerFeature.readLocalAddress, PeerFeature.parseData, Cursor.skip, size, port]

theorem gives_readData (id : UInt8) (data : Bytes) :
    ∃ d, (PeerFeature.readData id).Gives ⟨0, data⟩ (PeerFeature.parseData id data) d := by
  unfold PeerFeature.readData
  simp only [Read.gives_bind, Read.gives_look]
  refine Exists.imp (fun d given => ⟨_, _, ⟨rfl, rfl⟩, given⟩) ?_
  split
  · next mode =>
      subst mode
      split
      · next short =>
          rcases data with - | ⟨_, - | ⟨_, - | ⟨_, rest⟩⟩⟩
          iterate 3 exact ⟨_, Read.gives_pure.mpr ⟨rfl, rfl⟩⟩
          simp only [List.length_cons] at short
          omega
      · next enough => exact gives_readMode (Nat.not_lt.mp enough)
  · next notMode =>
      split
      · next session =>
          subst session
          split
          · next enough => exact gives_readSession enough
          · next short => exact ⟨_, Read.gives_pure.mpr ⟨by simp [PeerFeature.parseData, short], rfl⟩⟩
      · next notSession =>
          split
          · next address =>
              subst address
              split
              · next size => exact gives_readLocalAddress size
              · next other => exact ⟨_, Read.gives_pure.mpr ⟨by simp [PeerFeature.parseData, other], rfl⟩⟩
          · next notAddress =>
              split
              · next url =>
                  subst url
                  cases data with
                  | nil => exact ⟨_, Read.gives_pure.mpr ⟨rfl, rfl⟩⟩
                  | cons urlLen rest =>
                      by_cases enough : urlLen.toNat ≤ rest.length
                      · simp [PeerFeature.parseData, Cursor.skip, enough, Nat.add_comm 1]
                      · simp [PeerFeature.parseData, Cursor.skip, enough, Nat.add_comm 1]
                        exact Nat.lt_of_not_le enough
              · next notUrl =>
                  exact ⟨_, Read.gives_pure.mpr ⟨by simp [PeerFeature.parseData, notMode, notSession, notAddress, notUrl], rfl⟩⟩

/-- The ends that the lengths of its features claim, as far as a handshake is read. -/
def walkHandshake (data : Bytes) : List Nat :=
  match skipVlq ⟨0, data⟩ with
  | some d => (walkPeer d).1
  | none => []

theorem safe_read_handshake : HandshakeData.read.Safe justified ⟨0, data⟩ ↔ Fits (walkHandshake data) := by
  have fromTime : HandshakeData.read.Safe justified ⟨0, data⟩ ↔
      ∀ time d, readVlq.Gives ⟨0, data⟩ time d → PeerSpec.parse.Safe justified d := by
    simp only [HandshakeData.read, PeerSpec.parse, Read.safe_bind, safe_readVlq, safe_readShortString,
      @gives_texts "Truncated handshake" "Truncated agent name" "Truncated PeerSpec" "Truncated agent name",
      @gives_texts "Truncated handshake" "Truncated peer name" "Truncated PeerSpec" "Truncated peer name",
      Read.safe_pure, implies_true, and_true, true_and]
  rw [fromTime, walkHandshake]
  simp only [safe_peer]
  cases skipped : skipVlq ⟨0, data⟩ with
  | none =>
      simp only [fits_nil, iff_true]
      intro time d read
      rw [skipVlq_eq_some.mpr ⟨time, read⟩] at skipped
      cases skipped
  | some d =>
      obtain ⟨time, read⟩ := skipVlq_eq_some.mp skipped
      constructor
      · intro safe
        exact safe time d read
      · rintro fits time' d' read'
        obtain ⟨-, rfl⟩ := read.unique read'
        exact fits

theorem result_ne_panic {α : Type} {x : Read NetworkError α} :
    (x.exec c).result ≠ .error .panic ↔ x.Safe (fun _ => True) c := by
  simp [Read.Safe]

/-- Neither parser panics exactly if no feature that it comes to claims an end past the largest position. -/
theorem parse_safe_iff {data : Bytes} (size : data.length ≤ maxHandshakeSize) :
    (HandshakeData.parse data ≠ .error .panic ↔ Fits (walkHandshake data)) ∧
    (∀ pos, (PeerSpec.parse.exec ⟨pos, data.drop pos⟩).result ≠ .error .panic ↔
      Fits (walkPeer ⟨pos, data.drop pos⟩).1) ∧
    ∀ id feature, ((PeerFeature.readData id).exec ⟨0, feature⟩).result.map Prod.fst = .ok (.parseData id feature) := by
  refine ⟨?_, fun pos => ?_, fun id feature => ?_⟩
  · rw [← safe_read_handshake, ← result_ne_panic, HandshakeData.parse, if_neg (Nat.not_lt.mpr size)]
    cases (HandshakeData.read.exec ⟨0, data⟩).result <;> simp [Except.map]
  · rw [result_ne_panic, safe_peer]
  · obtain ⟨d, given⟩ := gives_readData id feature
    rw [given]
    rfl

end Safety

theorem fullHandshake_safe : fullHandshake.serialize.length ≤ maxHandshakeSize ∧
    (HandshakeData.parse fullHandshake.serialize ≠ .error .panic ↔ Fits (walkHandshake fullHandshake.serialize)) :=
  ⟨by decide, (parse_safe_iff (by decide)).1⟩

def longFeature : Bytes := [0, 6, 0, 1, 0, 0, 1, 9] ++ Vlq.encode (2 ^ 64 - 1)

theorem longFeature_panics : longFeature.length < maxHandshakeSize ∧
    HandshakeData.parse (0 :: longFeature) = .error .panic ∧
    (PeerSpec.parse.exec ⟨0, longFeature⟩).result = .error .panic ∧
    ¬ ∀ data : Bytes, data.length ≤ maxHandshakeSize → HandshakeData.parse data ≠ .error .panic :=
  ⟨by decide, rfl, rfl, fun safe => safe (0 :: longFeature) (by decide) rfl⟩

/-! ### Handshakes cut short -/

def featureData (id : UInt8) (len : Nat) : Read NetworkError (Option PeerFeature) := do
  match ← Read.span (2 ^ 64) len with
  | none => Read.fail (.invalidMessage "Truncated feature data")
  | some data => return some (.parseData id data)

theorem local_featureData (id : UInt8) (len : Nat) : (featureData id len).Local :=
  Read.local_span fun _ => Read.local_pure

theorem reads_featureData (id : UInt8) (data : Bytes) :
    (featureData id data.length).Reads (2 ^ 64) data (some (.parseData id data)) :=
  (Read.reads_span rfl (Nat.le_refl _)).last Read.reads_pure

theorem safe_featureData {id : UInt8} {len pos : Nat} {bytes : Bytes} {justified : Room → Prop}
    (below : pos + len < 2 ^ 64) : (featureData id len).Safe justified ⟨pos, bytes⟩ := by
  refine Read.safe_bind.mpr ⟨(Read.safe_span (by omega)).mpr below, fun found d _ => ?_⟩
  cases found with
  | none => exact Read.safe_fail _
  | some data => exact Read.safe_pure

theorem cuts_feature {A : Type} {feature : PeerFeature} {g : Option PeerFeature → Read NetworkError A}
    {bytes : Bytes} {ends : List Bytes} (ended : Read.Cuts (2 ^ 64) (g none) [] [[]])
    (rest : Read.Cuts (2 ^ 64) (g (some (.parseData feature.id feature.data))) bytes ends) :
    Read.Cuts (2 ^ 64) (readFeature >>= g) (feature.serialize ++ bytes)
      ([] :: ends.map (feature.serialize ++ ·)) := by
  refine Read.cuts_of_small fun small => ?_
  simp only [PeerFeature.serialize, List.length_append, List.length_cons] at small
  have fits : feature.data.length < 2 ^ 64 := by omega
  have data := rest.bind (local_featureData _ _) (reads_featureData feature.id feature.data)
    (fun pos p below => safe_featureData (by omega))
  have sized := Read.Cuts.bind (f := fun len => featureData feature.id len >>= g) local_readVlq (reads_vlq fits)
    (fun pos p _ => safe_readVlq) data
  have whole := Read.cuts_unless_end (f := fun id => readVlq >>= featureData id) ended (by rwa [← bind_assoc] at sized)
  have after : ends.map (feature.serialize ++ ·) = ((ends.map (feature.data ++ ·)).map
      (Vlq.encode feature.data.length ++ ·)).map (feature.id :: ·) := by
    simp [PeerFeature.serialize, Function.comp_def]
  rw [after, PeerFeature.serialize, List.cons_append, List.append_assoc]
  exact whole

theorem cuts_features (features : List PeerFeature) :
    Read.Cuts (2 ^ 64) (Read.collect readFeature features.length) (features.flatMap PeerFeature.serialize)
      ((List.range (features.length + 1)).map fun i => (features.take i).flatMap PeerFeature.serialize) := by
  induction features with
  | nil => exact Read.cuts_pure
  | cons feature features ih =>
      have each : (List.range (features.length + 1 + 1)).map (fun i => ((feature :: features).take i).flatMap
          PeerFeature.serialize) = [] :: ((List.range (features.length + 1)).map fun i => (features.take i).flatMap
            PeerFeature.serialize).map (feature.serialize ++ ·) := by
        simp [List.range_succ_eq_map, Function.comp_def]
      rw [List.flatMap_cons, List.length_cons, each, Read.collect]
      exact cuts_feature Read.cuts_pure (ih.map (g := fun more => PeerFeature.parseData feature.id feature.data :: more))

theorem cuts_readFeatures {A : Type} {features : List PeerFeature} {g : List PeerFeature → A}
    (few : features.length < 256) :
    Read.Cuts (2 ^ 64) (readFeatures >>= fun found => pure (g found))
      (UInt8.ofNat features.length :: features.flatMap PeerFeature.serialize)
      ([] :: (List.range (features.length + 1)).map fun i =>
        UInt8.ofNat features.length :: (features.take i).flatMap PeerFeature.serialize) := by
  have count : (UInt8.ofNat features.length).toNat = features.length := by simpa using few
  have found := (cuts_features features).map (g := g)
  rw [← count] at found
  have whole := Read.cuts_unless_end (v := []) (f := fun count => Read.collect readFeature count.toNat)
    (g := fun found => pure (g found)) Read.cuts_pure found
  rw [List.map_map, count] at whole
  exact whole

theorem cuts_readDeclaredAddr {A : Type} {declaredAddr : Option DeclaredAddress}
    {g : Option DeclaredAddress → Read NetworkError A} {bytes : Bytes} {ends : List Bytes}
    (ended : Read.Cuts (2 ^ 64) (g none) [] [[]]) (rest : Read.Cuts (2 ^ 64) (g declaredAddr) bytes ends) :
    Read.Cuts (2 ^ 64) (readDeclaredAddr >>= g) (declaredBytes declaredAddr ++ bytes)
      ([] :: ends.map (declaredBytes declaredAddr ++ ·)) := by
  cases declaredAddr with
  | none => exact Read.cuts_unless_end ended rest
  | some addr =>
      have small : addr.port.toNat < 2 ^ 64 := Nat.lt_trans addr.port.toNat_lt (by decide)
      have port := Read.Cuts.bind (f := fun port => g (some ⟨addr.ip, UInt16.ofNat port⟩)) local_readVlq
        (reads_vlq small) (fun _ _ _ => safe_readVlq) (by rwa [UInt16.ofNat_toNat])
      have ip := Read.Cuts.bind (f := fun ip => readVlq >>= fun port => g (some ⟨ip, UInt16.ofNat port⟩))
        local_readIp (reads_ip addr.ip) (fun _ _ _ => safe_readIp) port
      have after : ends.map (declaredBytes (some addr) ++ ·) = ((ends.map (Vlq.encode addr.port.toNat ++ ·)).map
          (addressType addr.ip :: addr.ip.octets ++ ·)).map (1 :: ·) := by
        simp [declaredBytes, Function.comp_def]
      rw [after, declaredBytes, List.cons_append]
      refine Read.cuts_unless_end ended ?_
      rw [if_pos rfl]
      simpa using ip

theorem cuts_addressAndFeatures {A : Type} {spec : PeerSpec} (few : spec.features.length < 256)
    {g : Option DeclaredAddress → List PeerFeature → A} :
    Read.Cuts (2 ^ 64) (readDeclaredAddr >>= fun addr => readFeatures >>= fun features => pure (g addr features))
      (declaredBytes spec.declaredAddr ++
        UInt8.ofNat spec.features.length :: spec.features.flatMap PeerFeature.serialize)
      ([] :: declaredBytes spec.declaredAddr :: (List.range (spec.features.length + 1)).map fun i =>
        declaredBytes spec.declaredAddr ++
          UInt8.ofNat spec.features.length :: (spec.features.take i).flatMap PeerFeature.serialize) := by
  have ended : Read.Cuts (2 ^ 64) (readFeatures >>= fun features => pure (g none features)) [] [[]] :=
    (Read.cuts_end (v := [])).map
  have whole := @cuts_readDeclaredAddr A spec.declaredAddr
    (fun addr => readFeatures >>= fun features => pure (g addr features)) _ _ ended (cuts_readFeatures few)
  rw [List.map_cons, List.map_map, List.append_nil] at whole
  exact whole

def namedBytes (h : HandshakeData) : Bytes :=
  Vlq.encode h.time.toNat ++ (shortString h.agentName ++
    ([h.version.1, h.version.2.1, h.version.2.2] ++ shortString h.peerName))

def cuts (h : HandshakeData) : List Bytes :=
  let declared := namedBytes h ++ declaredBytes h.declaredAddr
  namedBytes h :: declared :: (List.range h.features.length).map fun i =>
    declared ++ UInt8.ofNat h.features.length :: (h.features.take i).flatMap PeerFeature.serialize

theorem cuts_handshake {h : HandshakeData} (plain : PlainPeer (PeerSpec.fromHandshake h)) :
    Read.Cuts (2 ^ 64) HandshakeData.read h.serialize (cuts h ++ [h.serialize]) := by
  have parts : h.serialize = _ := congrArg (Vlq.encode h.time.toNat ++ ·) (serialize_peer (PeerSpec.fromHandshake h))
  have ends : cuts h ++ [h.serialize] = (((([] :: declaredBytes h.declaredAddr ::
      (List.range (h.features.length + 1)).map fun i => declaredBytes h.declaredAddr ++
        UInt8.ofNat h.features.length :: (h.features.take i).flatMap PeerFeature.serialize).map
      (shortString h.peerName ++ ·)).map ([h.version.1, h.version.2.1, h.version.2.2] ++ ·)).map
      (shortString h.agentName ++ ·)).map (Vlq.encode h.time.toNat ++ ·) := by
    rw [parts]
    simp [cuts, namedBytes, List.range_succ, PeerSpec.fromHandshake]
  rw [ends, parts]
  refine Read.Cuts.bind local_readVlq (reads_vlq h.time.toNat_lt) (fun _ _ _ => safe_readVlq) ?_
  refine Read.Cuts.bind (local_readShortString _ _) (reads_shortString plain.agentName)
    (fun _ _ _ => safe_readShortString) ?_
  refine Read.Cuts.bind local_readVersion (reads_version h.version) (fun _ _ _ => safe_readVersion) ?_
  refine Read.Cuts.bind (local_readShortString _ _) (reads_shortString plain.peerName)
    (fun _ _ _ => safe_readShortString) ?_
  exact cuts_addressAndFeatures plain.few

section Starts
variable {h : HandshakeData} {start : Bytes}

theorem accepted_iff (plain : PlainPeer (PeerSpec.fromHandshake h)) (fits : h.serialize.length ≤ maxHandshakeSize)
    (starts : start <+: h.serialize) :
    (∃ g, HandshakeData.parse start = .ok g) ↔ start ∈ cuts h ∨ start = h.serialize := by
  have small := small_of_size fits
  have given := (cuts_handshake plain 0 start starts (by omega)).2
  have within : start.length ≤ maxHandshakeSize := Nat.le_trans starts.length_le fits
  simp only [parse_eq_ok, within, true_and]
  simpa using given

theorem refused_of_start (plain : PlainPeer (PeerSpec.fromHandshake h))
    (fits : h.serialize.length ≤ maxHandshakeSize) (starts : start <+: h.serialize) (uncut : start ∉ cuts h)
    (strict : start ≠ h.serialize) : ∃ error, HandshakeData.parse start = .error (.error error) := by
  have small := small_of_size fits
  have safe := (cuts_handshake plain 0 start starts (by omega)).1.1
  have within : ¬ start.length > maxHandshakeSize := Nat.not_lt.mpr (Nat.le_trans starts.length_le fits)
  have accepted := accepted_iff plain fits starts
  rw [HandshakeData.parse, if_neg within] at accepted ⊢
  cases found : (HandshakeData.read.exec ⟨0, start⟩).result with
  | ok given =>
      rw [found] at accepted
      cases accepted.mp ⟨_, rfl⟩ with
      | inl cut => exact absurd cut uncut
      | inr whole => exact absurd whole strict
  | error stop =>
      cases stop with
      | error reason => exact ⟨reason, rfl⟩
      | panic => exact absurd found safe

end Starts

/-! ### Reading a handshake -/

namespace Codec
variable {codec : HandshakeCodec} {reads : List Bytes} {more : HandshakeRead} {h : HandshakeData}

theorem tryParse_tryParse :
    codec.tryParse reads (codec.tryParse reads more) = codec.tryParse reads more := by
  unfold HandshakeCodec.tryParse
  split
  · rfl
  · rfl
  · rfl

def goOn (codec : HandshakeCodec) : List Bytes → HandshakeRead
  | [] =>
      if codec.buffer.length > maxHandshakeSize then
        ⟨.error (.error (.network (.invalidMessage "Handshake too large"))), codec, []⟩
      else ⟨.error (.error .connectionClosed), codec, []⟩
  | buf :: reads =>
      if codec.buffer.length > maxHandshakeSize then
        ⟨.error (.error (.network (.invalidMessage "Handshake too large"))), codec, buf :: reads⟩
      else if buf = [] then ⟨.error (.error .connectionClosed), codec, reads⟩
      else { codec with buffer := codec.buffer ++ buf }.readHandshake reads

/-- Trying twice is trying once, and trying an empty buffer does nothing. -/
theorem readHandshake_eq : codec.readHandshake reads = codec.tryParse reads (goOn codec reads) := by
  obtain ⟨complete, buffer⟩ := codec
  induction reads generalizing buffer with
  | nil =>
      cases buffer with
      | nil => rfl
      | cons byte buffer => rfl
  | cons buf reads ih =>
      have once : (HandshakeCodec.mk complete (buffer ++ buf)).tryParse reads
          ((HandshakeCodec.mk complete (buffer ++ buf)).readHandshake reads) =
            (HandshakeCodec.mk complete (buffer ++ buf)).readHandshake reads := by
        rw [ih, tryParse_tryParse]
      rw [HandshakeCodec.readHandshake, once]
      cases buffer with
      | nil => rfl
      | cons byte buffer => rfl

def buffered (codec : HandshakeCodec) (reads : List Bytes) (k : Nat) : Bytes :=
  codec.buffer ++ (reads.take k).flatten

theorem buffered_zero : buffered codec reads 0 = codec.buffer := by
  simp [buffered]

theorem buffered_succ {buf : Bytes} {k : Nat} : buffered codec (buf :: reads) (k + 1) =
    buffered { codec with buffer := codec.buffer ++ buf } reads k := by
  simp [buffered]

theorem tryParse_cases (done : (codec.tryParse reads more).result = .ok h) :
    (HandshakeData.parse codec.buffer = .ok h ∧ (codec.tryParse reads more).reads = reads) ∨
      (∃ error, HandshakeData.parse codec.buffer = .error (.error error)) ∧
        codec.tryParse reads more = more := by
  rw [HandshakeCodec.tryParse] at done ⊢
  cases found : HandshakeData.parse codec.buffer with
  | ok given =>
      rw [found] at done
      cases done
      exact .inl ⟨rfl, rfl⟩
  | error stop =>
      rw [found] at done
      cases stop with
      | panic => cases done
      | error reason => exact .inr ⟨⟨reason, rfl⟩, rfl⟩

/-- A handshake that is returned is the first one that the buffer is taken for. -/
theorem steps_of_read (whole : ∀ read ∈ reads, read ≠ []) (done : (codec.readHandshake reads).result = .ok h) :
    ∃ k, (codec.readHandshake reads).reads = reads.drop k ∧
      HandshakeData.parse (buffered codec reads k) = .ok h ∧
      ∀ j < k, ∃ error, HandshakeData.parse (buffered codec reads j) = .error (.error error) := by
  induction reads generalizing codec with
  | nil =>
      rw [readHandshake_eq] at done ⊢
      rcases tryParse_cases done with ⟨found, left⟩ | ⟨-, last⟩
      · exact ⟨0, left, by rwa [buffered_zero], nofun⟩
      · rw [last, goOn] at done
        split at done <;> cases done
  | cons buf reads ih =>
      rw [readHandshake_eq] at done ⊢
      rcases tryParse_cases done with ⟨found, left⟩ | ⟨⟨error, refused⟩, next⟩
      · exact ⟨0, left, by rwa [buffered_zero], nofun⟩
      · rw [next, goOn] at done ⊢
        split at done
        · cases done
        · next small =>
            rw [if_neg (whole buf List.mem_cons_self)] at done
            rw [if_neg small, if_neg (whole buf List.mem_cons_self)]
            obtain ⟨k, left, taken, before⟩ := ih (fun read member => whole read (List.mem_cons_of_mem _ member)) done
            refine ⟨k + 1, left, by rwa [buffered_succ], ?_⟩
            intro j early
            cases j with
            | zero => exact ⟨error, by rwa [buffered_zero]⟩
            | succ j =>
                rw [buffered_succ]
                exact before j (Nat.lt_of_succ_lt_succ early)

theorem read_of_steps (whole : ∀ read ∈ reads, read ≠ []) {k : Nat} (within : k ≤ reads.length)
    (found : HandshakeData.parse (buffered codec reads k) = .ok h)
    (before : ∀ j < k, (∃ error, HandshakeData.parse (buffered codec reads j) = .error (.error error)) ∧
      (buffered codec reads j).length ≤ maxHandshakeSize) :
    codec.readHandshake reads = ⟨.ok h, ⟨true, buffered codec reads k⟩, reads.drop k⟩ := by
  induction reads generalizing codec k with
  | nil =>
      obtain rfl := Nat.le_zero.mp within
      rw [buffered_zero] at found ⊢
      rw [readHandshake_eq, HandshakeCodec.tryParse, found]
      rfl
  | cons buf reads ih =>
      rw [readHandshake_eq, HandshakeCodec.tryParse]
      cases k with
      | zero =>
          rw [buffered_zero] at found ⊢
          rw [found]
          rfl
      | succ k =>
          obtain ⟨⟨error, refused⟩, small⟩ := before 0 (Nat.succ_pos k)
          rw [buffered_zero] at refused small
          rw [refused]
          simp only [goOn, if_neg (Nat.not_lt.mpr small), if_neg (whole buf List.mem_cons_self)]
          rw [buffered_succ] at found ⊢
          have later := ih (fun read member => whole read (List.mem_cons_of_mem _ member))
            (Nat.le_of_succ_le_succ within) found ?_
          · exact later
          · intro j early
            have both := before (j + 1) (Nat.succ_lt_succ early)
            rwa [buffered_succ] at both

end Codec

section Stream
variable {h : HandshakeData} {more : Bytes} {reads : List Bytes}

theorem buffered_new {k : Nat} : Codec.buffered .new reads k = (reads.take k).flatten := List.nil_append _

theorem flatten_take_append {j k : Nat} (earlier : j ≤ k) :
    (reads.take j).flatten ++ ((reads.take k).drop j).flatten = (reads.take k).flatten := by
  have same : (reads.take k).take j = reads.take j := by rw [List.take_take, Nat.min_eq_left earlier]
  rw [← List.flatten_append, ← same, List.take_append_drop]

theorem flatten_take_ne (whole : ∀ read ∈ reads, read ≠ []) {j k : Nat} (early : j < k)
    (within : k ≤ reads.length) : (reads.take j).flatten ≠ (reads.take k).flatten := by
  intro same
  have between := @flatten_take_append reads j k (Nat.le_of_lt early)
  rw [same, List.append_right_eq_self, List.flatten_eq_nil_iff] at between
  have some : (reads.take k).drop j ≠ [] := by
    rw [← List.length_pos_iff, List.length_drop, List.length_take]
    omega
  obtain ⟨read, member⟩ := List.exists_mem_of_ne_nil _ some
  exact whole read (List.mem_of_mem_take (List.mem_of_mem_drop member)) (between read member)

theorem taken_of_read (whole : ∀ read ∈ reads, read ≠ []) (stream : reads.flatten = h.serialize ++ more)
    (done : (HandshakeCodec.new.readHandshake reads).result = .ok h)
    (left : (HandshakeCodec.new.readHandshake reads).reads.flatten = more) :
    (PlainPeer (PeerSpec.fromHandshake h) ∧ h.serialize.length ≤ maxHandshakeSize) ∧
      ∃ k, (reads.take k).flatten = h.serialize ∧ ∀ j < k, (reads.take j).flatten ∉ cuts h := by
  obtain ⟨k, dropped, found, before⟩ := Codec.steps_of_read whole done
  simp only [buffered_new] at found before
  have taken : (reads.take k).flatten = h.serialize := by
    rw [← List.take_append_drop k reads, List.flatten_append, ← dropped, left] at stream
    exact List.append_cancel_right stream
  have fits : PlainPeer (PeerSpec.fromHandshake h) ∧ h.serialize.length ≤ maxHandshakeSize := by
    have whole := @parse_serialize h []
    rw [List.append_nil] at whole
    exact whole.mp (taken ▸ found)
  refine ⟨fits, k, taken, fun j early cut => ?_⟩
  have starts : (reads.take j).flatten <+: h.serialize := ⟨_, taken ▸ flatten_take_append (Nat.le_of_lt early)⟩
  obtain ⟨g, accepted⟩ := (accepted_iff fits.1 fits.2 starts).mpr (.inl cut)
  obtain ⟨error, refused⟩ := before j early
  rw [accepted] at refused
  cases refused

theorem read_of_taken (whole : ∀ read ∈ reads, read ≠ []) (stream : reads.flatten = h.serialize ++ more)
    (plain : PlainPeer (PeerSpec.fromHandshake h)) (fits : h.serialize.length ≤ maxHandshakeSize) {k : Nat}
    (taken : (reads.take k).flatten = h.serialize) (uncut : ∀ j < k, (reads.take j).flatten ∉ cuts h) :
    (HandshakeCodec.new.readHandshake reads).result = .ok h ∧
      (HandshakeCodec.new.readHandshake reads).reads.flatten = more := by
  -- Reads past the end of the stream are none.
  obtain ⟨k, within, taken, uncut⟩ : ∃ k ≤ reads.length, (reads.take k).flatten = h.serialize ∧
      ∀ j < k, (reads.take j).flatten ∉ cuts h := by
    refine ⟨min k reads.length, Nat.min_le_right _ _, ?_, fun j early => uncut j (by omega)⟩
    rwa [← List.take_eq_take_min]
  have found : HandshakeData.parse (Codec.buffered .new reads k) = .ok h := by
    have whole := @parse_serialize h []
    rw [List.append_nil] at whole
    rw [buffered_new, taken]
    exact whole.mpr ⟨plain, fits⟩
  have done := Codec.read_of_steps whole within found fun j early => by
    have starts : (reads.take j).flatten <+: h.serialize :=
      ⟨_, taken ▸ flatten_take_append (Nat.le_of_lt early)⟩
    rw [buffered_new]
    have strict := flatten_take_ne whole early within
    rw [taken] at strict
    exact ⟨refused_of_start plain fits starts (uncut j early) strict, Nat.le_trans starts.length_le fits⟩
  rw [done]
  refine ⟨rfl, ?_⟩
  rw [← List.take_append_drop k reads, List.flatten_append, taken] at stream
  exact List.append_cancel_left stream

end Stream

/-- A handshake comes out of the stream, and nothing else is taken, just where it can be read back, some
read ends with its last byte, and none before ends where it could be cut. -/
theorem read_exactly_iff (h : HandshakeData) :
    (∀ (more : Bytes) (reads : List Bytes), (∀ read ∈ reads, read ≠ []) → reads.flatten = h.serialize ++ more →
      ((HandshakeCodec.new.readHandshake reads).result = .ok h ∧
          (HandshakeCodec.new.readHandshake reads).reads.flatten = more ↔
        (PlainPeer (PeerSpec.fromHandshake h) ∧ h.serialize.length ≤ maxHandshakeSize) ∧
          ∃ k, (reads.take k).flatten = h.serialize ∧ ∀ j < k, (reads.take j).flatten ∉ cuts h)) ∧
    (PlainPeer (PeerSpec.fromHandshake h) → h.serialize.length ≤ maxHandshakeSize →
      ∀ start, start <+: h.serialize → start ≠ h.serialize →
        ((∃ g, HandshakeData.parse start = .ok g) ↔ start ∈ cuts h)) := by
  constructor
  · intro more reads whole stream
    constructor
    · rintro ⟨done, left⟩
      exact taken_of_read whole stream done left
    · rintro ⟨⟨plain, fits⟩, k, taken, uncut⟩
      exact read_of_taken whole stream plain fits taken uncut
  · intro plain fits start starts strict
    rw [accepted_iff plain fits starts]
    exact or_iff_left strict

def fullReads : List Bytes :=
  [fullHandshake.serialize.take 20, fullHandshake.serialize.drop 20, [0, 255]]

theorem fullReads_read : (HandshakeCodec.new.readHandshake fullReads).result = .ok fullHandshake ∧
    (HandshakeCodec.new.readHandshake fullReads).reads.flatten = [0, 255] :=
  ((read_exactly_iff fullHandshake).1 [0, 255] fullReads (by decide) (by decide)).mpr
    ⟨⟨fullHandshake_plain, by decide⟩, 2, by decide, by decide⟩

def unnamedBytes : Bytes := fullHandshake.serialize.drop (namedBytes fullHandshake).length

def namedHandshake : HandshakeData := { fullHandshake with declaredAddr := none, features := [] }

/-- A read that ends with the name of the peer is taken for a handshake without address and features. -/
theorem namedRead_shortened :
    [namedBytes fullHandshake, unnamedBytes].flatten = fullHandshake.serialize ∧
      HandshakeCodec.new.readHandshake [namedBytes fullHandshake, unnamedBytes] =
        ⟨.ok namedHandshake, ⟨true, namedBytes fullHandshake⟩, [unnamedBytes]⟩ ∧
      namedHandshake ≠ fullHandshake :=
  ⟨by decide, by rfl, by decide⟩

end ErgoNode.Proof.Network
