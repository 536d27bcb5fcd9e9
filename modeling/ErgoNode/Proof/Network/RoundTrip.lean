import ErgoNode.Lib.Except
import ErgoNode.Proof.Network.Reading
import Mathlib.Algebra.BigOperators.Group.List.Basic

/-!
# Decoding what was encoded

Each reader takes what its writer wrote for the value that was written, as long as counts and lengths
fit their fields. Some messages are refused by the decoder however they were encoded.
-/

namespace ErgoNode.Proof.Network
open Lib

/-! ### Numbers and texts -/

theorem fromBeBytes_toBeBytes {n : Nat} (fits : n < 2 ^ 32) : fromBeBytes (toBeBytes n) = n := by
  simp [fromBeBytes, toBeBytes]
  omega

theorem vlqDecode_encode {value : Nat} (fits : value < 2 ^ 64) (rest : Bytes) :
    vlqDecode (Vlq.encode value ++ rest) = .ok (value, (Vlq.encode value).length) := by
  rw [vlqDecode_ok, Vlq.decode_encode_append fits]

theorem vlqDecodeSigned_encode (value : Int64) (rest : Bytes) :
    vlqDecodeSigned (vlqEncodeSigned value ++ rest) = .ok (value, (vlqEncodeSigned value).length) := by
  have decoded := vlqDecode_encode (Vlq.zigZag value).toNat_lt rest
  unfold vlqDecodeSigned vlqEncodeSigned
  rw [decoded, Except.bind_ok_eq_ok]
  refine ⟨_, rfl, ?_⟩
  change Except.ok (Vlq.unZigZag (UInt64.ofNat (Vlq.zigZag value).toNat), _) = _
  rw [UInt64.ofNat_toNat, Vlq.unZigZag_zigZag]

theorem ofBytes_bytes {n : Nat} (octets : Octets n) : Octets.ofBytes octets.bytes = octets := by
  obtain ⟨bytes, rfl⟩ := octets
  simp [Octets.ofBytes]

theorem length_toBeBytes (n : Nat) : (toBeBytes n).length = 4 := rfl

section Reads
variable {bound : Nat}

theorem reads_vlqAs {describe : NetworkError → NetworkError} {value : Nat} (fits : value < 2 ^ 64) :
    (readVlqAs describe).Reads bound (Vlq.encode value) value := by
  intro pos rest _
  refine gives_readVlqAs.mpr ⟨_, Vlq.decode_encode_append fits rest, ?_⟩
  simp [Cursor.skip]

theorem reads_vlq {value : Nat} (fits : value < 2 ^ 64) : readVlq.Reads bound (Vlq.encode value) value :=
  reads_vlqAs fits

theorem reads_require {n : Nat} {reason : String} {A : Type} {x : Read NetworkError A} {bytes : Bytes} {a : A}
    (enough : n ≤ bytes.length) (reads : x.Reads bound bytes a) :
    (require n reason >>= fun _ => x).Reads bound bytes a := by
  intro pos rest below
  have long : n ≤ (bytes ++ rest).length := by
    rw [List.length_append]
    omega
  exact Read.gives_bind.mpr ⟨(), _, gives_require.mpr ⟨long, rfl⟩, reads pos rest below⟩

end Reads

/-! ### Features -/

/-- Features that keep their kind: an address is written with four bytes or sixteen but read with four,
the length of a URL has one byte, and data under the id of a known kind is read as that kind. -/
def Plain : PeerFeature → Prop
  | .mode .. => True
  | .session .. => True
  | .localAddress ip _ => ∃ octets, ip = .v4 octets
  | .restApiUrl url => (Utf8.encode url).length < 256
  | .unknown id data => (id = 16 → data.length < 3) ∧ (id = 3 → data.length < 5) ∧
      (id = 2 → data.length ≠ 8) ∧ (id = 4 → ∀ urlLen rest, data = urlLen :: rest → rest.length < urlLen.toNat)

theorem fromBeBytes_take {n : Nat} (fits : n < 2 ^ 32) (rest : Bytes) :
    fromBeBytes ((toBeBytes n ++ rest).take 4) = n := by
  rw [List.take_left' (length_toBeBytes n), fromBeBytes_toBeBytes fits]

theorem parseMode_data (stateType : UInt8) (verifying : Bool) (nipopowSuffix : Option Int32)
    (blocksToKeep : Int32) :
    PeerFeature.parseData 16 (PeerFeature.mode stateType verifying nipopowSuffix blocksToKeep).data =
      .mode stateType verifying nipopowSuffix blocksToKeep := by
  have blocks := vlqDecodeSigned_encode blocksToKeep.toInt64 []
  rw [List.append_nil] at blocks
  have flag : decide ((if verifying then 1 else 0 : UInt8) ≠ 0) = verifying := by cases verifying <;> rfl
  cases nipopowSuffix with
  | none => simp [PeerFeature.parseData, PeerFeature.data, PeerFeature.parseMode, blocks]
  | some suffix =>
      have number := fromBeBytes_take suffix.toUInt32.toNat_lt (vlqEncodeSigned blocksToKeep.toInt64)
      have after : (toBeBytes suffix.toUInt32.toNat ++ vlqEncodeSigned blocksToKeep.toInt64).drop 4 =
          vlqEncodeSigned blocksToKeep.toInt64 := List.drop_left' (length_toBeBytes _)
      have enough : 4 ≤ (toBeBytes suffix.toUInt32.toNat ++ vlqEncodeSigned blocksToKeep.toInt64).length := by
        simp [length_toBeBytes]
      simp only [PeerFeature.parseData, PeerFeature.data, PeerFeature.parseMode, List.cons_append, if_true,
        enough, and_self, number, after, blocks, flag, UInt32.ofNat_toNat, Int32.toInt32_toUInt32,
        Int32.toInt32_toInt64]

theorem parseSession_data (magic : Octets 4) (sessionId : UInt64) :
    PeerFeature.parseData 3 (PeerFeature.session magic sessionId).data = .session magic sessionId := by
  have long : (magic.bytes ++ Vlq.encode sessionId.toNat).length ≥ 5 := by
    have positive := List.length_pos_of_ne_nil (Vlq.encode_ne_nil sessionId.toNat)
    rw [List.length_append, magic.size]
    omega
  have number := vlqDecode_encode sessionId.toNat_lt []
  rw [List.append_nil] at number
  simp only [PeerFeature.parseData, PeerFeature.data, PeerFeature.parseSession, long, if_true,
    List.take_left' magic.size, List.drop_left' magic.size, number, ofBytes_bytes, UInt64.ofNat_toNat]
  rfl

theorem parseAddress_data (octets : Octets 4) (port : UInt16) :
    PeerFeature.parseData 2 (PeerFeature.localAddress (.v4 octets) port).data =
      .localAddress (.v4 octets) port := by
  have size : (octets.bytes ++ toBeBytes port.toNat).length = 8 := by
    rw [List.length_append, octets.size, length_toBeBytes]
  have small : port.toNat < 2 ^ 32 := Nat.lt_trans port.toNat_lt (by decide)
  simp only [PeerFeature.parseData, PeerFeature.data, IpAddr.octets, size, if_true,
    List.take_left' octets.size, List.drop_left' octets.size, fromBeBytes_toBeBytes small, ofBytes_bytes,
    UInt16.ofNat_toNat]
  rfl

theorem parseUrl_data {url : String} (short : (Utf8.encode url).length < 256) :
    PeerFeature.parseData 4 (PeerFeature.restApiUrl url).data = .restApiUrl url := by
  have len : (UInt8.ofNat (Utf8.encode url).length).toNat = (Utf8.encode url).length := by simpa using short
  simp only [PeerFeature.parseData, PeerFeature.data, shortString, len, Nat.le_refl, if_true, List.take_length,
    Utf8.decodeLossy_encode]
  rfl

theorem parseUnknown_data {id : UInt8} {data : Bytes} (plain : Plain (.unknown id data)) :
    PeerFeature.parseData id data = .unknown id data := by
  obtain ⟨mode, session, address, url⟩ := plain
  unfold PeerFeature.parseData
  split
  · next known =>
      have short := mode known
      rcases data with _ | ⟨a, _ | ⟨b, _ | ⟨e, more⟩⟩⟩
      · rfl
      · rfl
      · rfl
      · simp at short
        omega
  · split
    · next known => exact if_neg (by have := session known; omega)
    · split
      · next known => exact if_neg (address known)
      · split
        · next known =>
            cases data with
            | nil => rfl
            | cons urlLen rest => exact if_neg (Nat.not_le.mpr (url known urlLen rest rfl))
        · rfl

theorem parseData_data {feature : PeerFeature} (plain : Plain feature) :
    PeerFeature.parseData feature.id feature.data = feature := by
  cases feature with
  | mode stateType verifying nipopowSuffix blocksToKeep => exact parseMode_data ..
  | session magic sessionId => exact parseSession_data ..
  | localAddress ip port =>
      obtain ⟨octets, rfl⟩ := plain
      exact parseAddress_data ..
  | restApiUrl url => exact parseUrl_data plain
  | unknown id data => exact parseUnknown_data plain

theorem length_lt_of_cut {text : String} (same : Utf8.decodeLossy ((Utf8.encode text).take
    (UInt8.ofNat (Utf8.encode text).length).toNat) = text) : (Utf8.encode text).length < 256 := by
  have short := Utf8.length_le_of_decodeLossy_take same
  rw [UInt8.toNat_ofNat'] at short
  omega

theorem plain_unknown {id : UInt8} {data : Bytes} (same : PeerFeature.parseData id data = .unknown id data) :
    Plain (.unknown id data) := by
  unfold PeerFeature.parseData at same
  refine ⟨?_, ?_, ?_, ?_⟩
  · rintro rfl
    rw [if_pos rfl] at same
    rcases data with _ | ⟨a, _ | ⟨b, _ | ⟨e, more⟩⟩⟩
    · simp
    · simp
    · simp
    · cases same
  · rintro rfl
    rw [if_neg (by decide), if_pos rfl] at same
    by_contra long
    rw [if_pos (Nat.not_lt.mp long)] at same
    cases same
  · rintro rfl size
    rw [if_neg (by decide), if_neg (by decide), if_pos rfl, if_pos size] at same
    cases same
  · rintro rfl urlLen rest rfl
    rw [if_neg (by decide), if_neg (by decide), if_neg (by decide), if_pos rfl] at same
    by_contra long
    simp only [if_pos (Nat.not_lt.mp long)] at same
    cases same

theorem plain_of_parseData {feature : PeerFeature} (same : PeerFeature.parseData feature.id feature.data = feature) :
    Plain feature := by
  cases feature with
  | mode stateType verifying nipopowSuffix blocksToKeep => trivial
  | session magic sessionId => trivial
  | localAddress ip port =>
      cases ip with
      | v4 octets => exact ⟨octets, rfl⟩
      | v6 octets =>
          have size : (PeerFeature.localAddress (.v6 octets) port).data.length ≠ 8 := by
            simp [PeerFeature.data, IpAddr.octets, octets.size, length_toBeBytes]
          unfold PeerFeature.parseData at same
          rw [PeerFeature.id, if_neg (by decide), if_neg (by decide), if_pos rfl, if_neg size] at same
          cases same
  | restApiUrl url =>
      have enough : (UInt8.ofNat (Utf8.encode url).length).toNat ≤ (Utf8.encode url).length := by
        rw [UInt8.toNat_ofNat']
        exact Nat.mod_le _ _
      unfold PeerFeature.parseData at same
      rw [PeerFeature.id, if_neg (by decide), if_neg (by decide), if_neg (by decide), if_pos rfl] at same
      simp only [PeerFeature.data, shortString, if_pos enough, PeerFeature.restApiUrl.injEq] at same
      exact length_lt_of_cut same
  | unknown id data => exact plain_unknown same

/-! ### Peers -/

theorem reads_featureAs (feature : PeerFeature) :
    readFeature.Reads (2 ^ 64) feature.serialize (some (.parseData feature.id feature.data)) := by
  refine Read.reads_of_small fun small => Read.reads_unless_end (List.cons_ne_nil _ _) ?_
  have fits : feature.data.length < 2 ^ 64 := by
    simp only [PeerFeature.serialize, List.length_cons, List.length_append] at small
    omega
  exact (Read.reads_byte feature.id).bind
    ((reads_vlq fits).bind ((Read.reads_span rfl (Nat.le_refl _)).last Read.reads_pure))

theorem reads_shortString {noLength noText text : String} (short : (Utf8.encode text).length < 256) :
    (readShortString noLength noText).Reads (2 ^ 64) (shortString text) text := by
  have len : (UInt8.ofNat (Utf8.encode text).length).toNat = (Utf8.encode text).length := by simpa using short
  refine reads_require (Nat.le_add_left 1 _) ((Read.reads_byte _).bind ?_)
  rw [len]
  refine reads_require (Nat.le_refl _) ((Read.reads_take rfl).last ?_)
  rw [Utf8.decodeLossy_encode]
  exact Read.reads_pure

theorem reads_version (version : UInt8 × UInt8 × UInt8) :
    readVersion.Reads (2 ^ 64) [version.1, version.2.1, version.2.2] version :=
  reads_require (Nat.le_refl _) ((Read.reads_byte version.1).bind ((Read.reads_byte version.2.1).bind
    ((Read.reads_byte version.2.2).last Read.reads_pure)))

def addressType : IpAddr → UInt8
  | .v4 _ => 8
  | .v6 _ => 20

theorem reads_ip (ip : IpAddr) : readIp.Reads (2 ^ 64) (addressType ip :: ip.octets) ip := by
  refine reads_require (Nat.le_add_left 1 _) ((Read.reads_byte _).bind ?_)
  cases ip with
  | v4 octets =>
      rw [addressType, if_pos rfl]
      refine reads_require (Nat.le_of_eq octets.size.symm) ((Read.reads_take octets.size).last ?_)
      rw [ofBytes_bytes]
      exact Read.reads_pure
  | v6 octets =>
      rw [addressType, if_neg (by decide), if_pos rfl]
      refine reads_require (Nat.le_of_eq octets.size.symm) ((Read.reads_take octets.size).last ?_)
      rw [ofBytes_bytes]
      exact Read.reads_pure

def declaredBytes : Option DeclaredAddress → Bytes
  | some ⟨ip, port⟩ => 1 :: addressType ip :: (ip.octets ++ Vlq.encode port.toNat)
  | none => [0]

theorem reads_declaredAddr (declaredAddr : Option DeclaredAddress) :
    readDeclaredAddr.Reads (2 ^ 64) (declaredBytes declaredAddr) declaredAddr := by
  cases declaredAddr with
  | none => exact Read.reads_unless_end (List.cons_ne_nil _ _) ((Read.reads_byte 0).last Read.reads_pure)
  | some addr =>
      have small : addr.port.toNat < 2 ^ 64 := Nat.lt_trans addr.port.toNat_lt (by decide)
      refine Read.reads_unless_end (List.cons_ne_nil _ _) ((Read.reads_byte 1).bind ?_)
      rw [if_pos rfl]
      refine (reads_ip addr.ip).bind ((reads_vlq small).last ?_)
      rw [UInt16.ofNat_toNat]
      exact Read.reads_pure

def reread (features : List PeerFeature) : List PeerFeature :=
  features.map fun feature => .parseData feature.id feature.data

theorem reads_featuresAs {features : List PeerFeature} (few : features.length < 256) :
    readFeatures.Reads (2 ^ 64) (UInt8.ofNat features.length :: features.flatMap PeerFeature.serialize)
      (reread features) := by
  have count : (UInt8.ofNat features.length).toNat = features.length := by simpa using few
  refine Read.reads_unless_end (List.cons_ne_nil _ _) ((Read.reads_byte _).bind ?_)
  rw [count]
  exact Read.reads_collect_map fun feature _ => reads_featureAs feature

theorem reread_eq_self {features : List PeerFeature} :
    reread features = features ↔ ∀ feature ∈ features, Plain feature := by
  constructor
  · intro same feature member
    exact plain_of_parseData (List.map_inj_left.mp (same.trans (List.map_id _).symm) feature member)
  · intro plain
    exact (List.map_congr_left fun feature member => parseData_data (plain feature member)).trans (List.map_id _)

/-- Names and the number of features fit into their one-byte counts, and features keep their kind. -/
structure PlainPeer (spec : PeerSpec) : Prop where
  agentName : (Utf8.encode spec.agentName).length < 256
  peerName : (Utf8.encode spec.peerName).length < 256
  few : spec.features.length < 256
  features : ∀ feature ∈ spec.features, Plain feature

theorem serialize_peer (spec : PeerSpec) : spec.serialize = shortString spec.agentName ++
    ([spec.version.1, spec.version.2.1, spec.version.2.2] ++ (shortString spec.peerName ++
      (declaredBytes spec.declaredAddr ++
        UInt8.ofNat spec.features.length :: spec.features.flatMap PeerFeature.serialize))) := by
  simp only [PeerSpec.serialize, List.append_assoc]
  rfl

theorem reads_peerAs {spec : PeerSpec} (agentName : (Utf8.encode spec.agentName).length < 256)
    (peerName : (Utf8.encode spec.peerName).length < 256) (few : spec.features.length < 256) :
    PeerSpec.parse.Reads (2 ^ 64) spec.serialize { spec with features := reread spec.features } := by
  rw [serialize_peer]
  exact (reads_shortString agentName).bind ((reads_version _).bind ((reads_shortString peerName).bind
    ((reads_declaredAddr _).bind ((reads_featuresAs few).last Read.reads_pure))))

theorem reads_peer {spec : PeerSpec} (plain : PlainPeer spec) :
    PeerSpec.parse.Reads (2 ^ 64) spec.serialize spec := by
  have reads := reads_peerAs plain.agentName plain.peerName plain.few
  rwa [reread_eq_self.mpr plain.features] at reads

/-! Only such peers come back. -/

theorem short_of_gives {noLength noText text : String} {more : Bytes} {pos : Nat} {d : Cursor}
    (given : (readShortString noLength noText).Gives ⟨pos, shortString text ++ more⟩ text d) :
    (Utf8.encode text).length < 256 := by
  have cut : (UInt8.ofNat (Utf8.encode text).length).toNat ≤ (Utf8.encode text).length := by
    rw [UInt8.toNat_ofNat']
    exact Nat.mod_le _ _
  obtain ⟨_, _, needed, given⟩ := Read.gives_bind.mp given
  obtain ⟨-, rfl⟩ := gives_require.mp needed
  obtain ⟨_, _, len, given⟩ := Read.gives_bind.mp given
  obtain ⟨⟨⟩, rfl⟩ := Read.gives_byte.mp len
  obtain ⟨_, _, needed, given⟩ := Read.gives_bind.mp given
  obtain ⟨-, rfl⟩ := gives_require.mp needed
  obtain ⟨_, _, taken, last⟩ := Read.gives_bind.mp given
  obtain ⟨-, rfl, -⟩ := Read.gives_take.mp taken
  have same := (Read.gives_pure.mp last).1
  refine length_lt_of_cut ?_
  rwa [← List.take_append_of_le_length cut]

theorem plain_features_of_gives {features : List PeerFeature} {more : Bytes} {pos : Nat} {d : Cursor}
    (below : pos + ((UInt8.ofNat features.length :: features.flatMap PeerFeature.serialize).length +
      more.length) < 2 ^ 64)
    (given : readFeatures.Gives
      ⟨pos, UInt8.ofNat features.length :: features.flatMap PeerFeature.serialize ++ more⟩ features d) :
    features.length < 256 ∧ ∀ feature ∈ features, Plain feature := by
  have few : features.length < 256 := by
    rw [List.cons_append] at given
    obtain ⟨_, _, looked, given⟩ := Read.gives_bind.mp given
    obtain ⟨rfl, rfl⟩ := Read.gives_look.mp looked
    rw [if_neg (List.cons_ne_nil _ _)] at given
    obtain ⟨_, _, count, given⟩ := Read.gives_bind.mp given
    obtain ⟨⟨⟩, rfl⟩ := Read.gives_byte.mp count
    have most := Read.length_collect_le given
    rw [UInt8.toNat_ofNat'] at most
    omega
  exact ⟨few, reread_eq_self.mp (given.unique (reads_featuresAs few pos more below)).1.symm⟩

theorem plain_of_gives {spec : PeerSpec} {more : Bytes} {pos : Nat} {d : Cursor}
    (below : pos + (spec.serialize.length + more.length) < 2 ^ 64)
    (given : PeerSpec.parse.Gives ⟨pos, spec.serialize ++ more⟩ spec d) : PlainPeer spec := by
  obtain ⟨agentName, version, peerName, declaredAddr, features⟩ := spec
  rw [serialize_peer] at below given
  simp only [List.length_append] at below
  simp only [List.append_assoc] at given
  obtain ⟨_, _, readAgent, given⟩ := Read.gives_bind.mp given
  obtain ⟨_, _, readTriple, given⟩ := Read.gives_bind.mp given
  obtain ⟨_, _, readPeer, given⟩ := Read.gives_bind.mp given
  obtain ⟨_, _, readAddr, given⟩ := Read.gives_bind.mp given
  obtain ⟨_, _, readAll, last⟩ := Read.gives_bind.mp given
  obtain ⟨⟨⟩, -⟩ := Read.gives_pure.mp last
  -- Each part is as it was written, so the next one starts where it did.
  have agent := short_of_gives readAgent
  obtain ⟨-, rfl⟩ := readAgent.unique (reads_shortString agent _ _ (by simp only [List.length_append]; omega))
  obtain ⟨-, rfl⟩ := readTriple.unique (reads_version version _ _ (by simp only [List.length_append]; omega))
  have peer := short_of_gives readPeer
  obtain ⟨-, rfl⟩ := readPeer.unique (reads_shortString peer _ _ (by simp only [List.length_append]; omega))
  obtain ⟨-, rfl⟩ := readAddr.unique (reads_declaredAddr declaredAddr _ _ (by simp only [List.length_append]; omega))
  obtain ⟨few, plain⟩ := plain_features_of_gives (by omega) readAll
  exact ⟨agent, peer, few, plain⟩

theorem gives_peer_iff {spec : PeerSpec} {more : Bytes} {pos : Nat}
    (below : pos + (spec.serialize.length + more.length) < 2 ^ 64) :
    PeerSpec.parse.Gives ⟨pos, spec.serialize ++ more⟩ spec ⟨pos + spec.serialize.length, more⟩ ↔
      PlainPeer spec :=
  ⟨plain_of_gives below, fun plain => reads_peer plain pos more below⟩

/-! ### Entries -/

theorem reads_id {id : Bytes} (size : id.length = 32) : readId.Reads (2 ^ 64) id (some id) := by
  refine Read.reads_look fun rest => ?_
  rw [if_neg (by rw [List.length_append]; omega)]
  exact (Read.reads_take size).map

theorem reads_ids {ids : List Bytes} (sizes : ∀ id ∈ ids, id.length = 32)
    (vector : ids.length * bytesSize ≤ isizeMax) : (readIds ids.length).Reads (2 ^ 64) ids.flatten ids := by
  rw [← List.flatMap_id]
  exact Read.reads_reserving vector (Read.reads_collect fun id member => reads_id (sizes id member))

theorem reads_sized {reason : Nat → Nat → String} (data : Bytes) :
    (readSized reason data.length).Reads (2 ^ 64) data data := by
  refine Read.reads_look fun rest => ?_
  rw [if_neg (by rw [List.length_append]; omega)]
  exact Read.reads_take rfl

theorem reads_modifierItem {item : ModifierItem} (size : item.id.length = 32) :
    readModifierItem.Reads (2 ^ 64) item.serialize item := by
  refine Read.reads_of_small fun small => ?_
  simp only [ModifierItem.serialize, List.length_append] at small
  refine reads_require (by simp only [ModifierItem.serialize, List.length_append]; omega) ?_
  exact (Read.reads_take size).bind ((reads_vlq (by omega)).bind ((reads_sized item.data).last Read.reads_pure))

theorem reads_manifestEntry {entry : UInt32 × Bytes} (size : entry.2.length = 32) :
    readManifestEntry.Reads (2 ^ 64) (toBeBytes entry.1.toNat ++ entry.2) entry := by
  refine reads_require (by rw [List.length_append, length_toBeBytes]; omega) ?_
  refine (Read.reads_take (length_toBeBytes _)).bind ((Read.reads_take size).last ?_)
  rw [fromBeBytes_toBeBytes entry.1.toNat_lt, UInt32.ofNat_toNat]
  exact Read.reads_pure

theorem reads_header (header : Bytes) :
    readHeader.Reads (2 ^ 64) (Vlq.encode header.length ++ header) (some header) := by
  refine Read.reads_of_small fun small => ?_
  rw [List.length_append] at small
  exact Read.reads_unless_end (List.append_ne_nil_of_left_ne_nil (Vlq.encode_ne_nil _) _)
    ((reads_vlqAs (by omega)).bind (Read.reads_span rfl (Nat.le_refl _)))

/-! ### Messages -/

def Identified : Message → Prop
  | .syncInfo info => ∀ id ∈ info.lastHeaderIds, id.length = 32
  | .inv inv => ∀ id ∈ inv.ids, id.length = 32
  | .requestModifier req => ∀ id ∈ req.ids, id.length = 32
  | .modifier data => ∀ item ∈ data.modifiers, item.id.length = 32
  | .snapshotsInfo info => ∀ entry ∈ info.availableManifests, entry.2.length = 32
  | .getManifest manifestId => manifestId.length = 32
  | .getUtxoSnapshotChunk subtreeId => subtreeId.length = 32
  | _ => True

/-- Counts and lengths fit their fields, and vectors into memory. -/
def FieldsFit (json : SerdeJson) : Message → Prop
  | .handshake handshake => ∀ text, json.toVec handshake = .ok text → text.length < 2 ^ 32
  | .peers specs => specs.length * peerSpecSize ≤ isizeMax ∧ ∀ spec ∈ specs, PlainPeer spec
  | .syncInfo info => info.lastHeaderIds.length * bytesSize ≤ isizeMax ∧ info.lastHeaders.length < 256
  | .inv inv => inv.ids.length * bytesSize ≤ isizeMax
  | .requestModifier req => req.ids.length * bytesSize ≤ isizeMax
  | .modifier data => data.modifiers.length * modifierItemSize ≤ isizeMax
  | _ => True

def capped (name : String) (max : Nat) (data : Bytes) (message : Message) : NetworkResult Message :=
  if data.length > max then .error (.invalidMessage s!"{name} too large: {data.length} > {max}") else .ok message

def received : Message → NetworkResult Message
  | .syncInfo info => .ok (.syncInfo (if info.isV2 then .v2 info.lastHeaders else info))
  | .snapshotsInfo info =>
      if info.availableManifests.length > maxSnapshotsInfoEntries then
        .error (.invalidMessage
          s!"Too many snapshots info entries: {info.availableManifests.length} > {maxSnapshotsInfoEntries}")
      else .ok (.snapshotsInfo info)
  | .manifest data => capped "Manifest" maxManifestSize data (.manifest data)
  | .utxoSnapshotChunk data => capped "UtxoSnapshotChunk" maxChunkSize data (.utxoSnapshotChunk data)
  | message => .ok message

def Arrives (json : SerdeJson) (message : Message) (body : Bytes) (result : NetworkResult Message) : Prop :=
  ((Message.read json message.messageType).exec ⟨0, body⟩).result.map Prod.fst = result.mapError .error

section Arrival
variable {json : SerdeJson} {message : Message} {body : Bytes}

theorem arrives_of_gives {arrived : Message} {d : Cursor}
    (given : (Message.read json message.messageType).Gives ⟨0, body⟩ arrived d) :
    Arrives json message body (.ok arrived) := by
  unfold Arrives
  rw [Read.Gives] at given
  rw [given]
  rfl

theorem arrives_of_reads {arrived : Message} (small : body.length < 2 ^ 64)
    (reads : (Message.read json message.messageType).Reads (2 ^ 64) body arrived) :
    Arrives json message body (.ok arrived) :=
  arrives_of_gives (reads.whole small)

theorem handshake_arrives {handshake : Handshake} {text : Bytes}
    (inverse : json.fromSlice text = .ok handshake) (short : text.length < 2 ^ 32) :
    (readHandshake json).Reads (2 ^ 64) (toBeBytes text.length ++ text) handshake := by
  refine (Read.reads_take (length_toBeBytes _)).bind ?_
  rw [fromBeBytes_toBeBytes short]
  refine reads_require (Nat.le_refl _) ((Read.reads_take rfl).last ?_)
  rw [inverse]
  exact Read.reads_pure

theorem reads_inventory {typeId : UInt8} {ids : List Bytes} (sizes : ∀ id ∈ ids, id.length = 32)
    (vector : ids.length * bytesSize ≤ isizeMax) :
    readInventory.Reads (2 ^ 64) (typeId :: (Vlq.encode ids.length ++ ids.flatten)) (typeId, ids) := by
  have small : ids.length < 2 ^ 64 := by
    unfold bytesSize isizeMax at vector
    omega
  have counted (rest : Bytes) : vlqDecode (Vlq.encode ids.length ++ ids.flatten ++ rest) =
      .ok (ids.length, (Vlq.encode ids.length).length) := by
    rw [List.append_assoc, vlqDecode_encode small]
  refine (Read.reads_byte typeId).bind (@Read.reads_look _ _ _ _ (Vlq.encode ids.length ++ ids.flatten) _ fun rest => ?_)
  rw [counted]
  exact Read.reads_pure.bind ((Read.reads_advance (Vlq.byteLen_eq small).symm).bind
    ((reads_ids sizes vector).last Read.reads_pure))

theorem reads_modifiers {typeId : UInt8} {modifiers : List ModifierItem}
    (sizes : ∀ item ∈ modifiers, item.id.length = 32)
    (vector : modifiers.length * modifierItemSize ≤ isizeMax) :
    readModifiers.Reads (2 ^ 64)
      (typeId :: (Vlq.encode modifiers.length ++ modifiers.flatMap ModifierItem.serialize)) ⟨typeId, modifiers⟩ := by
  have small : modifiers.length < 2 ^ 64 := by
    unfold modifierItemSize isizeMax at vector
    omega
  exact (Read.reads_byte typeId).bind ((reads_vlq small).bind (Read.reads_reserving vector
    ((Read.reads_repeated fun item member => reads_modifierItem (sizes item member)).last Read.reads_pure)))

theorem reads_peers {specs : List PeerSpec} (vector : specs.length * peerSpecSize ≤ isizeMax)
    (plain : ∀ spec ∈ specs, PlainPeer spec) :
    readPeers.Reads (2 ^ 64) (Vlq.encode specs.length ++ specs.flatMap PeerSpec.serialize) specs := by
  have small : specs.length < 2 ^ 64 := by
    unfold peerSpecSize isizeMax at vector
    omega
  exact (reads_vlq small).bind (Read.reads_reserving vector
    (Read.reads_repeated fun spec member => reads_peer (plain spec member)))

theorem serialize_v2 {headers : List Bytes} (nonempty : headers ≠ []) : (SyncInfo.v2 headers).serialize =
    0 :: 0xFF :: UInt8.ofNat headers.length :: headers.flatMap fun header => Vlq.encode header.length ++ header := by
  simp [SyncInfo.serialize, SyncInfo.isV2, SyncInfo.v2, nonempty, Vlq.encode_zero]

theorem reads_v2 {headers : List Bytes} (nonempty : headers ≠ []) (few : headers.length < 256) :
    SyncInfo.parse.Reads (2 ^ 64) (SyncInfo.v2 headers).serialize (.v2 headers) := by
  have count : (UInt8.ofNat headers.length).toNat = headers.length := by simpa using few
  have vector : headers.length * bytesSize ≤ isizeMax := by
    unfold bytesSize isizeMax
    omega
  rw [serialize_v2 nonempty]
  refine Read.reads_unless_end (List.cons_ne_nil _ _)
    ((@reads_vlqAs (2 ^ 64) (inContext "Failed to decode count") 0 (by decide)).bind (Read.reads_look fun rest => ?_))
  rw [List.cons_append, List.head?_cons, if_pos ⟨rfl, rfl⟩]
  refine (@Read.reads_advance _ (2 ^ 64) [0xFF] 1 rfl).bind
    (Read.reads_unless_end (List.cons_ne_nil _ _) ((Read.reads_byte _).bind ?_))
  rw [count]
  exact Read.reads_reserving vector
    ((Read.reads_collect fun header _ => reads_header header).last Read.reads_pure)

theorem gives_v1 {ids : List Bytes} (sizes : ∀ id ∈ ids, id.length = 32)
    (vector : ids.length * bytesSize ≤ isizeMax) (small : (SyncInfo.v1 ids).serialize.length < 2 ^ 64) :
    ∃ d, SyncInfo.parse.Gives ⟨0, (SyncInfo.v1 ids).serialize⟩ (.v1 ids) d := by
  have fits : ids.length < 2 ^ 64 := by
    unfold bytesSize isizeMax at vector
    omega
  have nonempty : (SyncInfo.v1 ids).serialize ≠ [] := List.append_ne_nil_of_left_ne_nil (Vlq.encode_ne_nil _) _
  have behind : (⟨0, (SyncInfo.v1 ids).serialize⟩ : Cursor).skip (Vlq.encode ids.length).length =
      ⟨(Vlq.encode ids.length).length, ids.flatten ++ []⟩ := by
    simp [Cursor.skip, SyncInfo.serialize, SyncInfo.isV2, SyncInfo.v1]
  have unmarked : ¬ (ids.length = 0 ∧ ids.flatten.head? = some 0xFF) := by
    rintro ⟨none, marker⟩
    rw [List.length_eq_zero_iff.mp none] at marker
    cases marker
  have read := reads_ids sizes vector (Vlq.encode ids.length).length [] (by
    simpa [SyncInfo.serialize, SyncInfo.isV2, SyncInfo.v1] using small)
  have counted := Vlq.decode_encode_append fits ids.flatten
  refine ⟨⟨(Vlq.encode ids.length).length + ids.flatten.length, []⟩,
    Read.gives_bind.mpr ⟨_, _, Read.gives_look.mpr ⟨rfl, rfl⟩, ?_⟩⟩
  rw [if_neg nonempty]
  refine Read.gives_bind.mpr ⟨ids.length, _, gives_readVlqAs.mpr ⟨_, counted, behind⟩, ?_⟩
  refine Read.gives_bind.mpr ⟨_, _, Read.gives_look.mpr ⟨rfl, rfl⟩, ?_⟩
  rw [List.append_nil, if_neg unmarked]
  rw [List.append_nil] at read
  exact Read.gives_map.mpr ⟨ids, read, rfl⟩

theorem reads_snapshotsInfo {info : SnapshotsInfo} (sizes : ∀ entry ∈ info.availableManifests, entry.2.length = 32)
    (few : info.availableManifests.length ≤ maxSnapshotsInfoEntries) :
    SnapshotsInfo.parse.Reads (2 ^ 64) info.serialize info := by
  have vector : info.availableManifests.length * manifestEntrySize ≤ isizeMax := by
    unfold maxSnapshotsInfoEntries at few
    unfold manifestEntrySize isizeMax
    omega
  have fits : info.availableManifests.length < 2 ^ 64 := by
    unfold maxSnapshotsInfoEntries at few
    omega
  refine Read.reads_unless_end (List.append_ne_nil_of_left_ne_nil (Vlq.encode_ne_nil _) _) ((reads_vlqAs fits).bind ?_)
  rw [if_neg (Nat.not_lt.mpr few)]
  exact Read.reads_reserving vector
    ((Read.reads_repeated fun entry member => reads_manifestEntry (sizes entry member)).last Read.reads_pure)

theorem snapshotsInfo_refused {info : SnapshotsInfo} (fits : info.availableManifests.length < 2 ^ 64)
    (many : info.availableManifests.length > maxSnapshotsInfoEntries) :
    SnapshotsInfo.parse.exec ⟨0, info.serialize⟩ = ⟨.error (.error (.invalidMessage
      s!"Too many snapshots info entries: {info.availableManifests.length} > {maxSnapshotsInfoEntries}")), []⟩ := by
  have nonempty : info.serialize ≠ [] := List.append_ne_nil_of_left_ne_nil (Vlq.encode_ne_nil _) _
  rw [SnapshotsInfo.parse, Read.exec_bind_of_ok (Read.exec_look _), if_neg nonempty,
    Read.exec_bind_of_ok (exec_readVlqAs (Vlq.decode_encode_append fits _)), if_pos many, Read.exec_fail]

theorem reads_snapshotData {name : String} {max : Nat} {data : Bytes} (fits : data.length < 2 ^ 64)
    (small : ¬ data.length > max) :
    (readSnapshotData name max).Reads (2 ^ 64) (Vlq.encode data.length ++ data) data := by
  refine (reads_vlq fits).bind ?_
  rw [if_neg small]
  exact reads_sized data

theorem snapshotData_refused {name : String} {max : Nat} {data : Bytes} (fits : data.length < 2 ^ 64)
    (large : data.length > max) : (readSnapshotData name max).exec ⟨0, Vlq.encode data.length ++ data⟩ =
      ⟨.error (.error (.invalidMessage s!"{name} too large: {data.length} > {max}")), []⟩ := by
  rw [readSnapshotData, readVlq, Read.exec_bind_of_ok (exec_readVlqAs (Vlq.decode_encode_append fits _)), if_pos large,
    Read.exec_fail]

theorem arrives_of_failed {e : NetworkError}
    (failed : (Message.read json message.messageType).exec ⟨0, body⟩ = ⟨.error (.error e), []⟩) :
    Arrives json message body (.error e) := by
  unfold Arrives
  rw [failed]
  rfl

theorem capped_arrives {name : String} {max : Nat} {data : Bytes} {wrap : Bytes → Message}
    (reader : Message.read json (wrap data).messageType = wrap <$> readSnapshotData name max)
    (small : (Vlq.encode data.length ++ data).length < 2 ^ 64) :
    Arrives json (wrap data) (Vlq.encode data.length ++ data) (capped name max data (wrap data)) := by
  have fits : data.length < 2 ^ 64 := by
    rw [List.length_append] at small
    omega
  unfold capped
  split
  · next large =>
      refine arrives_of_failed ?_
      rw [reader, Read.map_eq_bind, Read.exec_bind_of_error (snapshotData_refused fits large)]
  · next inside =>
      refine arrives_of_reads small ?_
      rw [reader]
      exact (reads_snapshotData fits inside).map

theorem reads_snapshotId {reason : String} {id : Bytes} (size : id.length = 32) :
    (readSnapshotId reason).Reads (2 ^ 64) id id :=
  reads_require (Nat.le_of_eq size.symm) (Read.reads_take size)

theorem snapshotsInfo_arrives {info : SnapshotsInfo} (identified : Identified (.snapshotsInfo info))
    (small : info.serialize.length < 2 ^ 64) :
    Arrives json (.snapshotsInfo info) info.serialize (received (.snapshotsInfo info)) := by
  unfold received
  dsimp only
  split
  · next many =>
      have entries : info.availableManifests.length ≤ info.serialize.length := by
        rw [SnapshotsInfo.serialize, List.length_append, List.length_flatMap]
        refine Nat.le_trans ?_ (Nat.le_add_left _ _)
        have each := List.length_le_sum_of_one_le (info.availableManifests.map fun entry =>
          (toBeBytes entry.1.toNat ++ entry.2).length) (by simp [length_toBeBytes]; omega)
        rwa [List.length_map] at each
      refine arrives_of_failed ?_
      exact Read.exec_bind_of_error (snapshotsInfo_refused (Nat.lt_of_le_of_lt entries small) many)
  · next few => exact arrives_of_reads small (reads_snapshotsInfo identified (Nat.le_of_not_lt few)).map

theorem syncInfo_arrives {info : SyncInfo} (identified : Identified (.syncInfo info))
    (fields : FieldsFit json (.syncInfo info)) (small : info.serialize.length < 2 ^ 64) :
    Arrives json (.syncInfo info) info.serialize (received (.syncInfo info)) := by
  obtain ⟨ids, headers⟩ := info
  by_cases empty : headers = []
  · subst empty
    obtain ⟨d, given⟩ := gives_v1 identified fields.1 small
    exact arrives_of_gives (Read.gives_map.mpr ⟨_, given, rfl⟩)
  · have same : (⟨ids, headers⟩ : SyncInfo).serialize = (SyncInfo.v2 headers).serialize := by
      simp [SyncInfo.serialize, SyncInfo.isV2, SyncInfo.v2, empty]
    have sent : received (.syncInfo ⟨ids, headers⟩) = .ok (.syncInfo (.v2 headers)) := by
      simp [received, SyncInfo.isV2, empty]
    rw [same] at small ⊢
    rw [sent]
    exact arrives_of_reads small (reads_v2 empty fields.2).map

theorem body_arrives (inverse : ∀ handshake text, json.toVec handshake = .ok text →
    json.fromSlice text = .ok handshake) (identified : Identified message) (fields : FieldsFit json message)
    (encoded : message.body json = .ok body) (small : body.length < 2 ^ 64) :
    Arrives json message body (received message) := by
  cases message with
  | handshake handshake =>
      obtain ⟨text, written, rfl⟩ : ∃ text, json.toVec handshake = .ok text ∧
          toBeBytes text.length ++ text = body := by
        simpa [Message.body] using encoded
      exact arrives_of_reads small (handshake_arrives (inverse _ _ written) (fields text written)).map
  | getPeers => exact arrives_of_gives (Read.gives_pure.mpr ⟨rfl, rfl⟩)
  | peers specs =>
      cases encoded
      exact arrives_of_reads small (reads_peers fields.1 fields.2).map
  | syncInfo info =>
      cases encoded
      exact syncInfo_arrives identified fields small
  | inv inv =>
      cases encoded
      exact arrives_of_reads small (reads_inventory identified fields).map
  | requestModifier req =>
      cases encoded
      exact arrives_of_reads small (reads_inventory identified fields).map
  | modifier data =>
      cases encoded
      exact arrives_of_reads small (reads_modifiers identified fields).map
  | getSnapshotsInfo => exact arrives_of_gives (Read.gives_pure.mpr ⟨rfl, rfl⟩)
  | snapshotsInfo info =>
      cases encoded
      exact snapshotsInfo_arrives identified small
  | getManifest manifestId =>
      cases encoded
      exact arrives_of_reads small (reads_snapshotId identified).map
  | manifest data =>
      cases encoded
      exact capped_arrives rfl small
  | getUtxoSnapshotChunk subtreeId =>
      cases encoded
      exact arrives_of_reads small (reads_snapshotId identified).map
  | utxoSnapshotChunk data =>
      cases encoded
      exact capped_arrives rfl small

end Arrival

def InverseJson (json : SerdeJson) : Prop :=
  ∀ handshake text, json.toVec handshake = .ok text → json.fromSlice text = .ok handshake

theorem encode_eq_ok {json : SerdeJson} {message : Message} {bytes : Bytes} :
    message.encode json = .ok bytes ↔
      ∃ body, message.body json = .ok body ∧ message.messageType.toByte :: body = bytes := by
  simp only [Message.encode, Except.bind_ok_eq_ok, Except.pure_eq_ok]

theorem decode_known {json : SerdeJson} (type : MessageType) (payload : Bytes) :
    Message.decode json (type.toByte :: payload) = (Message.read json type).exec ⟨0, payload⟩ := by
  rw [Message.decode, MessageType.ofByte_toByte]

theorem decode_encode {json : SerdeJson} (inverse : InverseJson json) {message : Message}
    (identified : Identified message) (fields : FieldsFit json message) {bytes : Bytes}
    (encoded : message.encode json = .ok bytes) (size : bytes.length ≤ isizeMax) :
    (Message.decode json bytes).result.map Prod.fst = (received message).mapError .error := by
  obtain ⟨body, written, rfl⟩ := encode_eq_ok.mp encoded
  have small : body.length < 2 ^ 64 := by
    rw [List.length_cons] at size
    unfold isizeMax at size
    omega
  rw [decode_known]
  exact body_arrives inverse identified fields written small

/-! ### A handshake, an announcement and a list of manifests -/

def plainHandshake : Handshake := ⟨"ergo", (5, 0, 0), "node", none, []⟩

def plainText : Bytes :=
  Utf8.encode "\x7b\"agent_name\":\"ergo\",\"version\":[5,0,0],\"node_name\":\"node\",\"declared_addr\":null,\"features\":[]\x7d"

def plainJson : SerdeJson where
  toVec handshake := if handshake = plainHandshake then .ok plainText else .error "other"
  fromSlice text := if text = plainText then .ok plainHandshake else .error "other"

theorem plainJson_inverse : InverseJson plainJson := by
  intro handshake text written
  unfold plainJson at written ⊢
  dsimp only at written ⊢
  split at written
  · next same =>
      cases written
      rw [if_pos rfl, same]
  · cases written

theorem plainText_length : plainText.length < 2 ^ 8 := by
  decide

theorem plainJson_toVec : plainJson.toVec plainHandshake = .ok plainText := by
  simp [plainJson]

theorem plainHandshake_encoded : (Message.handshake plainHandshake).encode plainJson =
    .ok (75 :: (toBeBytes plainText.length ++ plainText)) := by
  refine encode_eq_ok.mpr ⟨toBeBytes plainText.length ++ plainText, ?_, rfl⟩
  rw [Message.body, plainJson_toVec]
  rfl

theorem plainHandshake_fits : FieldsFit plainJson (.handshake plainHandshake) := by
  intro text written
  cases plainJson_toVec.symm.trans written
  exact Nat.lt_trans plainText_length (by decide)

def twoIds : InvData := ⟨101, [List.replicate 32 1, List.replicate 32 2]⟩

theorem plainMessages_return :
    (Message.decode plainJson (75 :: (toBeBytes plainText.length ++ plainText))).result.map Prod.fst =
        .ok (.handshake plainHandshake) ∧
      (Message.decode plainJson (55 :: 101 :: 2 :: twoIds.ids.flatten)).result.map Prod.fst = .ok (.inv twoIds) := by
  constructor
  · have size : (75 :: (toBeBytes plainText.length ++ plainText)).length ≤ isizeMax := by
      have short := plainText_length
      rw [List.length_cons, List.length_append, length_toBeBytes]
      unfold isizeMax
      omega
    exact @decode_encode plainJson plainJson_inverse (.handshake plainHandshake) trivial plainHandshake_fits _
      plainHandshake_encoded size
  · have identified : Identified (.inv twoIds) := show ∀ id ∈ twoIds.ids, id.length = 32 by decide
    have fits : FieldsFit plainJson (.inv twoIds) := show 2 * bytesSize ≤ isizeMax by decide
    exact @decode_encode plainJson plainJson_inverse (.inv twoIds) identified fits _ rfl (by decide)

def manyManifests : SnapshotsInfo := ⟨List.replicate 101 (0, List.replicate 32 0)⟩

/-- More manifests than the decoder takes. -/
theorem manyManifests_refused : ¬ ∀ json, InverseJson json → ∀ message, Identified message →
    ∀ bytes, message.encode json = .ok bytes →
      (Message.decode json bytes).result.map Prod.fst = .ok message := by
  intro always
  have identified : Identified (.snapshotsInfo manyManifests) := by
    intro entry member
    rw [List.eq_of_mem_replicate member]
    rfl
  have count : manyManifests.availableManifests.length = 101 := List.length_replicate
  have small : manyManifests.availableManifests.length < 2 ^ 64 := by omega
  have many : manyManifests.availableManifests.length > maxSnapshotsInfoEntries := by
    rw [count]
    decide
  have encoded : (Message.snapshotsInfo manyManifests).encode plainJson =
      .ok (MessageType.toByte .snapshotsInfo :: manyManifests.serialize) := rfl
  have returned := always plainJson plainJson_inverse (.snapshotsInfo manyManifests) identified _ encoded
  rw [decode_known, Message.read, Read.map_eq_bind,
    Read.exec_bind_of_error (snapshotsInfo_refused small many)] at returned
  cases returned

end ErgoNode.Proof.Network
