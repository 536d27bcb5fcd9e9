import ErgoNode.Lib.Run
import ErgoNode.Sync.Synchronizer
import Mathlib.Data.List.Dedup
import Mathlib.Data.List.Perm.Basic

/-!
# The quorum for a snapshot

A snapshot is chosen once enough peers have announced its manifest. Its height is the one it was first
announced with; whether the other peers announced that height is not looked at.
-/

namespace ErgoNode.Proof.Snapshots
open Lib

/-! ### Announcements -/

structure Announcement where
  peer : PeerId
  height : Nat
  manifestId : ManifestId
  deriving DecidableEq

section Announcements
variable (announced : List Announcement) (manifestId : ManifestId)

def firstHeight : Option Nat :=
  (announced.find? fun announcement => announcement.manifestId = manifestId).map Announcement.height

def announcers : List PeerId :=
  ((announced.filter fun announcement => announcement.manifestId = manifestId).map Announcement.peer).dedup

def announcersAt (height : Nat) : List PeerId :=
  ((announced.filter fun announcement => announcement.manifestId = manifestId ∧ announcement.height = height).map
    Announcement.peer).dedup

end Announcements

section Record
variable {announced : List Announcement} {available : AvailableManifests} {manifestId : ManifestId}
variable {height quorum : Nat} {peer : PeerId}

theorem mem_announcers : peer ∈ announcers announced manifestId ↔
    ∃ announcement ∈ announced, announcement.manifestId = manifestId ∧ announcement.peer = peer := by
  simp [announcers, and_assoc]

theorem firstHeight_append (announcement : Announcement) :
    firstHeight (announced ++ [announcement]) manifestId =
      (firstHeight announced manifestId).or
        (if announcement.manifestId = manifestId then some announcement.height else none) := by
  unfold firstHeight
  rw [List.find?_append, Option.map_or]
  by_cases same : announcement.manifestId = manifestId <;> simp [same]

theorem firstHeight_eq_none : firstHeight announced manifestId = none ↔ announcers announced manifestId = [] := by
  simp [firstHeight, announcers, List.dedup_eq_nil, List.filter_eq_nil_iff]

/-- The table of manifests is a digest of the announcements. -/
structure Recorded (announced : List Announcement) (available : AvailableManifests) : Prop where
  height : ∀ manifestId, (available.lookup manifestId).map Prod.fst = firstHeight announced manifestId
  once : ∀ {manifestId height peers}, available.lookup manifestId = some (height, peers) → peers.Nodup
  peers : ∀ {manifestId height peers}, available.lookup manifestId = some (height, peers) →
    ∀ peer, peer ∈ peers ↔ peer ∈ announcers announced manifestId

theorem Recorded.length (recorded : Recorded announced available) {peers : List PeerId}
    (found : available.lookup manifestId = some (height, peers)) :
    peers.length = (announcers announced manifestId).length :=
  ((List.perm_ext_iff_of_nodup (recorded.once found) (List.nodup_dedup _)).mpr (recorded.peers found)).length_eq

theorem mem_announcers_append {announcement : Announcement} :
    peer ∈ announcers (announced ++ [announcement]) manifestId ↔
      peer ∈ announcers announced manifestId ∨ announcement.manifestId = manifestId ∧ announcement.peer = peer := by
  simp only [mem_announcers, List.mem_append, List.mem_singleton, or_and_right, exists_or, exists_eq_left]

theorem lookup_recordManifest_ne {other : ManifestId} (apart : other ≠ manifestId) :
    (Synchronizer.recordManifest peer available (height, manifestId)).lookup other = available.lookup other := by
  unfold Synchronizer.recordManifest
  dsimp only
  split <;> exact AList.lookup_insert_ne apart

theorem lookup_recordManifest (peer : PeerId) (available : AvailableManifests) (height : Nat) (manifestId : ManifestId) :
    (Synchronizer.recordManifest peer available (height, manifestId)).lookup manifestId =
      match available.lookup manifestId with
      | some (first, peers) => some (first, if peer ∈ peers then peers else peers ++ [peer])
      | none => some (height, [peer]) := by
  unfold Synchronizer.recordManifest
  cases held : available.lookup manifestId with
  | none => simp [held]
  | some entry => simp [held]

theorem recordManifest_cases {other : ManifestId} {entry : Nat × List PeerId}
    (found : (Synchronizer.recordManifest peer available (height, manifestId)).lookup other = some entry) :
    (other ≠ manifestId ∧ available.lookup other = some entry) ∨
      (other = manifestId ∧ available.lookup other = none ∧ entry = (height, [peer])) ∨
      ∃ first peers, other = manifestId ∧ available.lookup other = some (first, peers) ∧
        entry = (first, if peer ∈ peers then peers else peers ++ [peer]) := by
  by_cases same : other = manifestId
  · subst same
    rw [lookup_recordManifest] at found
    cases before : available.lookup other with
    | none =>
        rw [before] at found
        cases found
        exact .inr (.inl ⟨rfl, rfl, rfl⟩)
    | some entry =>
        rw [before] at found
        cases found
        exact .inr (.inr ⟨_, _, rfl, rfl, rfl⟩)
  · rw [lookup_recordManifest_ne same] at found
    exact .inl ⟨same, found⟩

theorem Recorded.record (recorded : Recorded announced available) (peer : PeerId) (height : Nat)
    (manifestId : ManifestId) : Recorded (announced ++ [⟨peer, height, manifestId⟩])
      (Synchronizer.recordManifest peer available (height, manifestId)) := by
  constructor
  case height =>
    intro other
    rw [firstHeight_append, ← recorded.height]
    by_cases same : other = manifestId
    · subst same
      rw [lookup_recordManifest]
      cases available.lookup other with
      | none => simp
      | some entry => simp
    · rw [lookup_recordManifest_ne same, if_neg (Ne.symm same), Option.or_none]
  case once =>
    intro other first peers found
    rcases recordManifest_cases found with ⟨-, before⟩ | ⟨-, -, ⟨⟩⟩ | ⟨_, known, -, before, ⟨⟩⟩
    · exact recorded.once before
    · exact List.nodup_singleton peer
    · have once := recorded.once before
      split
      · exact once
      · next new =>
          refine List.nodup_append.mpr ⟨once, List.nodup_singleton peer, ?_⟩
          rintro _ member _ here rfl
          exact new (List.mem_singleton.mp here ▸ member)
  case peers =>
    intro other first peers found asked
    rw [mem_announcers_append]
    rcases recordManifest_cases found with ⟨apart, before⟩ | ⟨rfl, before, ⟨⟩⟩ | ⟨_, known, rfl, before, ⟨⟩⟩
    · simp [recorded.peers before asked, Ne.symm apart]
    · have unheard : announcers announced other = [] := firstHeight_eq_none.mp (by simp [← recorded.height, before])
      simp [unheard, eq_comm]
    · rw [← recorded.peers before asked]
      split
      · next already =>
          refine ⟨.inl, fun either => either.elim id fun new => ?_⟩
          exact new.2 ▸ already
      · simp [eq_comm]

theorem Recorded.foldl (recorded : Recorded announced available) (peer : PeerId) (manifests : List (Nat × ManifestId)) :
    Recorded (announced ++ manifests.map fun manifest => ⟨peer, manifest.1, manifest.2⟩)
      (manifests.foldl (Synchronizer.recordManifest peer) available) := by
  induction manifests generalizing announced available with
  | nil => simpa using recorded
  | cons manifest rest ih =>
      have next := ih (recorded.record peer manifest.1 manifest.2)
      rw [List.append_assoc] at next
      exact next

end Record

/-! ### The choice -/

section Choice
variable {sync : Synchronizer} {manifestId : ManifestId} {height : Nat}

def lastly {K V : Type} [DecidableEq K] [DecidableEq V] (last : K × V) : Iteration K V where
  entries table :=
    let entries := table.entries.map fun entry => (entry.1, entry.2)
    if last ∈ entries then entries.erase last ++ [last] else entries
  perm table := by
    dsimp only
    split
    · next member => exact List.perm_append_comm.trans (List.perm_cons_erase member).symm
    · exact .rfl

/-- Whatever the order of the hash map, a highest of the manifests that enough peers have is chosen; and
each of them is chosen in some order. -/
theorem checkManifestAvailability_iff :
    (∃ order, sync.checkManifestAvailability order = some (manifestId, height)) ↔
      ∃ peers, sync.availableManifests.lookup manifestId = some (height, peers) ∧
        sync.config.minSnapshotPeers ≤ peers.length ∧
        ∀ other otherHeight others, sync.availableManifests.lookup other = some (otherHeight, others) →
          sync.config.minSnapshotPeers ≤ others.length → otherHeight ≤ height := by
  have listed (order : Iteration ManifestId (Nat × List PeerId)) (entry : ManifestId × Nat × List PeerId) :
      entry ∈ order.entries sync.availableManifests ↔ sync.availableManifests.lookup entry.1 = some entry.2 := by
    rw [(order.perm _).mem_iff, ← Option.mem_def, AList.mem_lookup_iff]
    simp [Prod.ext_iff]
  constructor
  · rintro ⟨order, chosen⟩
    obtain ⟨⟨id, first, peers⟩, best, same⟩ := Option.map_eq_some_iff.mp chosen
    cases same
    obtain ⟨member, highest, -⟩ := List.argmax_eq_some_iff.mp best
    obtain ⟨here, enough⟩ := List.mem_filter.mp (List.mem_reverse.mp member)
    refine ⟨peers, (listed order _).mp here, by simpa using enough, fun other otherHeight others found many => ?_⟩
    refine highest (other, otherHeight, others) (List.mem_reverse.mpr (List.mem_filter.mpr ⟨?_, by simpa using many⟩))
    exact (listed order _).mpr found
  · rintro ⟨peers, found, enough, highest⟩
    refine ⟨lastly (manifestId, height, peers), ?_⟩
    obtain ⟨rest, shape⟩ : ∃ rest, (((lastly (manifestId, height, peers)).entries sync.availableManifests).filter
        fun entry => entry.2.2.length ≥ sync.config.minSnapshotPeers).reverse = (manifestId, height, peers) :: rest := by
      unfold lastly
      dsimp only
      rw [if_pos ((listed ⟨_, fun _ => .rfl⟩ (manifestId, height, peers)).mpr found), List.filter_append,
        List.reverse_append, List.filter_singleton]
      simp [enough]
    have best : ((manifestId, height, peers) :: rest).argmax (fun entry => entry.2.1) =
        some (manifestId, height, peers) := by
      refine List.argmax_eq_some_iff.mpr ⟨List.mem_cons_self, fun entry there => ?_, fun entry _ _ => by simp⟩
      rw [← shape, List.mem_reverse, List.mem_filter] at there
      exact highest entry.1 entry.2.1 entry.2.2 ((listed _ entry).mp there.1) (by simpa using there.2)
    rw [Synchronizer.checkManifestAvailability, shape, best]
    rfl

end Choice

/-! ### Runs -/

structure SnapshotsOffer where
  peer : PeerId
  manifests : List (Nat × ManifestId)

structure SnapshotSearch where
  sync : Synchronizer
  announced : List Announcement

namespace SnapshotSearch

def start (config : SyncConfig) : SnapshotSearch := ⟨.new config, []⟩

def heard (s : SnapshotSearch) (info : SnapshotsOffer) : List Announcement :=
  s.announced ++ info.manifests.map fun manifest => ⟨info.peer, manifest.1, manifest.2⟩

def step (s : SnapshotSearch) (info : SnapshotsOffer) : Option SnapshotSearch :=
  some ⟨(s.sync.processSnapshotsInfo ⟨_, fun _ => .rfl⟩ info.peer info.manifests).2, s.heard info⟩

end SnapshotSearch

/-- A manifest and a height that are returned were announced together by enough peers. -/
def Attested (s : SnapshotSearch) (info : SnapshotsOffer) : Prop :=
  ∀ order manifestId height,
    (s.sync.processSnapshotsInfo order info.peer info.manifests).1 = some (manifestId, height) →
      s.sync.config.minSnapshotPeers ≤ (announcersAt (s.heard info) manifestId height).length

/-- The manifest was announced by enough peers, with any height, and of all such manifests none was first
announced with a greater height. -/
def Leading (quorum : Nat) (announced : List Announcement) (manifestId : ManifestId) (height : Nat) : Prop :=
  firstHeight announced manifestId = some height ∧ quorum ≤ (announcers announced manifestId).length ∧
    ∀ other ∈ announced, ∀ otherHeight ∈ firstHeight announced other.manifestId,
      quorum ≤ (announcers announced other.manifestId).length → otherHeight ≤ height

/-- Each of the leading manifests was announced by enough peers with the height it was first announced with. -/
def Agreed (s : SnapshotSearch) (info : SnapshotsOffer) : Prop :=
  info.manifests ≠ [] → ∀ announcement ∈ s.heard info,
    Leading s.sync.config.minSnapshotPeers (s.heard info) announcement.manifestId announcement.height →
      s.sync.config.minSnapshotPeers ≤
        (announcersAt (s.heard info) announcement.manifestId announcement.height).length

instance (s : SnapshotSearch) : DecidablePred (Agreed s) := fun _ => by
  unfold Agreed Leading
  infer_instance

section Steps
variable {announced : List Announcement} {s t : SnapshotSearch} {info : SnapshotsOffer} {manifestId : ManifestId}
variable {height : Nat}

theorem processSnapshotsInfo_snd (order : Iteration ManifestId (Nat × List PeerId)) :
    (s.sync.processSnapshotsInfo order info.peer info.manifests).2 = { s.sync with
      availableManifests := info.manifests.foldl (Synchronizer.recordManifest info.peer) s.sync.availableManifests } := by
  unfold Synchronizer.processSnapshotsInfo
  split
  · next none => simp [none]
  · rfl

theorem exists_announcement (first : firstHeight announced manifestId = some height) :
    ∃ announcement ∈ announced, announcement.manifestId = manifestId ∧ announcement.height = height := by
  obtain ⟨announcement, found, same⟩ := Option.map_eq_some_iff.mp first
  exact ⟨announcement, List.mem_of_find?_eq_some found, by simpa using List.find?_some found, same⟩

theorem Recorded.leading_iff {available : AvailableManifests} (recorded : Recorded announced available) (quorum : Nat) :
    (∃ peers, available.lookup manifestId = some (height, peers) ∧ quorum ≤ peers.length ∧
      ∀ other otherHeight others, available.lookup other = some (otherHeight, others) → quorum ≤ others.length →
        otherHeight ≤ height) ↔ Leading quorum announced manifestId height := by
  have entry {id : ManifestId} {first : Nat} (here : firstHeight announced id = some first) :
      ∃ peers, available.lookup id = some (first, peers) := by
    rw [← recorded.height, Option.map_eq_some_iff] at here
    obtain ⟨⟨_, peers⟩, found, rfl⟩ := here
    exact ⟨peers, found⟩
  have first {id : ManifestId} {height : Nat} {peers : List PeerId} (found : available.lookup id = some (height, peers)) :
      firstHeight announced id = some height := by
    rw [← recorded.height, found]
    rfl
  constructor
  · rintro ⟨peers, found, enough, highest⟩
    refine ⟨first found, recorded.length found ▸ enough, fun other _ otherHeight there many => ?_⟩
    obtain ⟨others, held⟩ := entry there
    exact highest _ otherHeight others held ((recorded.length held).symm ▸ many)
  · rintro ⟨here, enough, highest⟩
    obtain ⟨peers, found⟩ := entry here
    refine ⟨peers, found, (recorded.length found).symm ▸ enough, fun other otherHeight others held many => ?_⟩
    obtain ⟨announcement, member, rfl, -⟩ := exists_announcement (first held)
    exact highest announcement member otherHeight (first held) (recorded.length held ▸ many)

theorem recorded_heard (recorded : Recorded s.announced s.sync.availableManifests) (info : SnapshotsOffer) :
    Recorded (s.heard info)
      (info.manifests.foldl (Synchronizer.recordManifest info.peer) s.sync.availableManifests) :=
  recorded.foldl info.peer info.manifests

theorem attested_iff_agreed (recorded : Recorded s.announced s.sync.availableManifests) :
    Attested s info ↔ Agreed s info := by
  by_cases none : info.manifests = []
  · simp [Attested, Agreed, Synchronizer.processSnapshotsInfo, none]
  · have chosen (manifestId : ManifestId) (height : Nat) :
        (∃ order, (s.sync.processSnapshotsInfo order info.peer info.manifests).1 = some (manifestId, height)) ↔
          Leading s.sync.config.minSnapshotPeers (s.heard info) manifestId height := by
      rw [← (recorded_heard recorded info).leading_iff]
      simp only [Synchronizer.processSnapshotsInfo, if_neg none]
      exact checkManifestAvailability_iff
    constructor
    · intro attested _ announcement _ leading
      obtain ⟨order, returned⟩ := (chosen _ _).mpr leading
      exact attested order _ _ returned
    · intro agreed order manifestId height returned
      have leading := (chosen manifestId height).mp ⟨order, returned⟩
      obtain ⟨announcement, member, rfl, rfl⟩ := exists_announcement leading.1
      exact agreed none announcement member leading

end Steps

/-- A quorum stands behind the manifest and height that are returned exactly as long as each leading
manifest has one behind the height it was first announced with. -/
theorem along_attested_iff (config : SyncConfig) (infos : List SnapshotsOffer) :
    Along SnapshotSearch.step Attested (.start config) infos ↔
      Along SnapshotSearch.step Agreed (.start config) infos := by
  have start : Recorded (SnapshotSearch.start config).announced (SnapshotSearch.start config).sync.availableManifests :=
    ⟨fun _ => rfl, nofun, nofun⟩
  refine along_iff_along (fun (recorded : Recorded _ _) _ => attested_iff_agreed recorded) (fun recorded _ _ taken => ?_)
    start along_true
  cases taken
  dsimp only
  rw [processSnapshotsInfo_snd]
  exact recorded_heard recorded _

section Samples

def disputedInfos : List SnapshotsOffer := [⟨[1], [(1000, .filled 7)]⟩, ⟨[2], [(20, .filled 7)]⟩]

theorem disputedInfos_unattested : ¬ Along SnapshotSearch.step Attested (.start .default) disputedInfos := by
  intro along
  have second := along [⟨[1], [(1000, .filled 7)]⟩] ⟨[2], [(20, .filled 7)]⟩ List.prefix_rfl _ rfl
  exact absurd (second ⟨_, fun _ => .rfl⟩ (.filled 7) 1000 (by decide)) (by decide)

end Samples

end ErgoNode.Proof.Snapshots
