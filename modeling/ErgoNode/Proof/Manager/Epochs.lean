import ErgoNode.Lib.Store
import ErgoNode.Proof.Manager.Sections

/-!
# Parameters read from storage

The parameters that a start rebuilds are those of the extensions stored at the epoch boundaries, where each
parameter keeps the value of the last boundary that sets it.
-/

namespace ErgoNode.Proof.Manager
open Lib VotedParameters

variable {sr : SigmaRust} {db before after : Database} {params : VotedParameters} {epoch height low high : Nat}

/-! ### The boundaries -/

theorem isEpochBoundary_iff : isEpochBoundary height = true ↔ 0 < height ∧ height % 1024 = 0 := decide_eq_true_iff

theorem mem_epochs : epoch ∈ epochs height ↔ isEpochBoundary epoch = true ∧ epoch ≤ height := by
  rw [isEpochBoundary_iff, epochs, List.mem_range']
  simp only [votingEpochLength]
  constructor
  · rintro ⟨i, below, rfl⟩
    omega
  · rintro ⟨⟨positive, divides⟩, le⟩
    exact ⟨epoch / 1024 - 1, by omega, by omega⟩

theorem epochs_succ (height : Nat) :
    epochs (height + 1) = epochs height ++ if isEpochBoundary (height + 1) then [height + 1] else [] := by
  simp only [epochs, isEpochBoundary_iff, votingEpochLength]
  split
  · next boundary =>
      have more : (height + 1) / 1024 = height / 1024 + 1 := by omega
      have last : 1024 + 1024 * (height / 1024) = height + 1 := by omega
      rw [more, List.range'_concat, last]
  · next inside =>
      have same : (height + 1) / 1024 = height / 1024 := by omega
      rw [same, List.append_nil]

def epochsBetween (low high : Nat) : List Nat := (epochs high).filter (low < ·)

theorem mem_epochsBetween : epoch ∈ epochsBetween low high ↔ low < epoch ∧ epoch ≤ high ∧ isEpochBoundary epoch = true := by
  rw [epochsBetween, List.mem_filter, mem_epochs, decide_eq_true_iff]
  tauto

theorem epochs_append (le : low ≤ high) : epochs high = epochs low ++ epochsBetween low high := by
  induction le with
  | refl =>
      have none : epochsBetween low low = [] := by
        rw [List.eq_nil_iff_forall_not_mem]
        intro epoch member
        obtain ⟨above, most, -⟩ := mem_epochsBetween.mp member
        exact Nat.not_lt.mpr most above
      rw [none, List.append_nil]
  | @step high le ih =>
      rw [epochsBetween, Nat.succ_eq_add_one, epochs_succ, List.filter_append, ← epochsBetween, ih, List.append_assoc]
      split
      · have above : low < high + 1 := Nat.lt_succ_of_le le
        simp [above]
      · simp

/-! ### The fields of the parameters -/

def parameterFields : List (UInt8 × (VotedParameters → Nat)) :=
  [(ParamIds.storageFeeFactor, (·.storageFeeFactor)), (ParamIds.minValuePerByte, (·.minValuePerByte)),
    (ParamIds.maxBlockSize, (·.maxBlockSize)), (ParamIds.maxBlockCost, (·.maxBlockCost)),
    (ParamIds.tokenAccessCost, (·.tokenAccessCost)), (ParamIds.inputCost, (·.inputCost)),
    (ParamIds.dataInputCost, (·.dataInputCost)), (ParamIds.outputCost, (·.outputCost))]

section Fields
variable {field : UInt8 × (VotedParameters → Nat)}

theorem field_fromExtension (member : field ∈ parameterFields) (parsed : Extension.ParameterTable) :
    field.2 (fromExtension epoch parsed params) = votedOr parsed field.1 (field.2 params) := by
  simp only [parameterFields, List.mem_cons, List.not_mem_nil, or_false] at member
  rcases member with rfl | rfl | rfl | rfl | rfl | rfl | rfl | rfl <;> rfl

theorem eq_iff_fields {params other : VotedParameters} : params = other ↔ params.height = other.height ∧
    ∀ field ∈ parameterFields, field.2 params = field.2 other := by
  constructor
  · rintro rfl
    exact ⟨rfl, fun _ _ => rfl⟩
  · rintro ⟨heights, fields⟩
    simp only [parameterFields, List.forall_mem_cons, List.not_mem_nil, false_imp_iff, implies_true, and_true] at fields
    obtain ⟨factor, value, size, cost, access, input, dataInput, output⟩ := fields
    rcases params with ⟨⟨_⟩, _⟩
    rcases other with ⟨⟨_⟩, _⟩
    cases heights
    cases factor
    cases value
    cases size
    cases cost
    cases access
    cases input
    cases dataInput
    cases output
    rfl

end Fields

/-! ### Votes that are replayed -/

/-- What the extensions at the boundaries vote, where they vote at all. -/
abbrev Votes := Nat → Option Extension.ParameterTable

def replayVotes (votes : Votes) (params : VotedParameters) (epoch : Nat) : VotedParameters :=
  match votes epoch with
  | some parsed => fromExtension epoch parsed params
  | none => params

def replay (votes : Votes) (height : Nat) : VotedParameters :=
  (epochs height).foldl (replayVotes votes) VotedParameters.default

section Replay
variable {votes others : Votes} {items : List Nat}

theorem foldl_replayVotes_of_unvoted (unvoted : ∀ epoch ∈ items, votes epoch = none) :
    items.foldl (replayVotes votes) params = params := by
  induction items with
  | nil => rfl
  | cons epoch items ih =>
      rw [List.foldl_cons, replayVotes, unvoted epoch List.mem_cons_self]
      exact ih fun other member => unvoted other (List.mem_cons_of_mem _ member)

theorem foldl_replayVotes_congr (same : ∀ epoch ∈ items, others epoch = votes epoch) :
    items.foldl (replayVotes others) params = items.foldl (replayVotes votes) params := by
  refine List.foldl_ext _ _ _ fun params epoch member => ?_
  rw [replayVotes, replayVotes, same epoch member]

def setHeight (votes : Votes) (epoch : Nat) : Option Nat := (votes epoch).map fun _ => epoch

def setParameter (votes : Votes) (paramId : UInt8) (epoch : Nat) : Option Nat :=
  (votes epoch).bind fun parsed => (parsed.lookup paramId).map fun value => (value % 2 ^ 64).toNat

theorem foldl_replayVotes_field {get : VotedParameters → Nat} {set : Nat → Option Nat}
    (turn : ∀ params epoch, get (replayVotes votes params epoch) = (set epoch).getD (get params)) (items : List Nat) :
    get (items.foldl (replayVotes votes) params) = LastWrite.last set items (get params) := by
  induction items generalizing params with
  | nil => rfl
  | cons epoch items ih =>
      rw [List.foldl_cons, ih, turn]
      rfl

theorem height_foldl_replayVotes (items : List Nat) : (items.foldl (replayVotes votes) params).height =
    LastWrite.last (setHeight votes) items params.height := by
  refine foldl_replayVotes_field (fun params epoch => ?_) items
  rw [replayVotes, setHeight]
  cases votes epoch <;> rfl

theorem field_foldl_replayVotes {field : UInt8 × (VotedParameters → Nat)} (member : field ∈ parameterFields)
    (items : List Nat) : field.2 (items.foldl (replayVotes votes) params) =
      LastWrite.last (setParameter votes field.1) items (field.2 params) := by
  refine foldl_replayVotes_field (fun params epoch => ?_) items
  rw [replayVotes, setParameter]
  cases votes epoch with
  | none => rfl
  | some parsed =>
      dsimp only [Option.bind]
      rw [field_fromExtension member, votedOr]
      cases parsed.lookup field.1 <;> rfl

theorem setParameter_ne_none {paramId : UInt8} :
    setParameter votes paramId epoch ≠ none ↔ ∃ parsed, votes epoch = some parsed ∧ paramId ∈ parsed := by
  rw [setParameter]
  cases votes epoch with
  | none => simp
  | some parsed => simp [← AList.lookup_isSome, Option.isSome_iff_ne_none]

/-- What two replays of the same boundaries start from does not show where the boundaries vote. -/
theorem foldl_replayVotes_eq_iff {other : VotedParameters} :
    items.foldl (replayVotes votes) params = items.foldl (replayVotes votes) other ↔
      (params.height = other.height ∨ ∃ epoch ∈ items, votes epoch ≠ none) ∧
      ∀ field ∈ parameterFields, field.2 params = field.2 other ∨
        ∃ epoch ∈ items, ∃ parsed, votes epoch = some parsed ∧ field.1 ∈ parsed := by
  rw [eq_iff_fields, height_foldl_replayVotes, height_foldl_replayVotes, LastWrite.last_eq_last_iff]
  refine and_congr ?_ (forall₂_congr fun field member => ?_)
  · simp [setHeight]
  · rw [field_foldl_replayVotes member, field_foldl_replayVotes member, LastWrite.last_eq_last_iff]
    simp only [setParameter_ne_none]

/-- The last votes up to the height are the same: those for each parameter, and the last of all. -/
structure SameVotes (votes others : Votes) (height : Nat) : Prop where
  heights : LastWrite.last (setHeight votes) (epochs height) VotedParameters.default.height =
    LastWrite.last (setHeight others) (epochs height) VotedParameters.default.height
  fields : ∀ field ∈ parameterFields,
    LastWrite.last (setParameter votes field.1) (epochs height) (field.2 VotedParameters.default) =
      LastWrite.last (setParameter others field.1) (epochs height) (field.2 VotedParameters.default)

theorem replay_eq_iff_sameVotes : replay votes height = replay others height ↔ SameVotes votes others height := by
  rw [replay, replay, eq_iff_fields, height_foldl_replayVotes, height_foldl_replayVotes]
  constructor
  · rintro ⟨height, fields⟩
    refine ⟨height, fun field member => ?_⟩
    rw [← field_foldl_replayVotes member, ← field_foldl_replayVotes member]
    exact fields field member
  · rintro ⟨height, fields⟩
    refine ⟨height, fun field member => ?_⟩
    rw [field_foldl_replayVotes member, field_foldl_replayVotes member]
    exact fields field member

def Unvoted (votes : Votes) (low high : Nat) : Prop := ∀ epoch ∈ epochsBetween low high, votes epoch = none

theorem unvoted_self : Unvoted votes height height := by
  intro epoch member
  obtain ⟨above, most, -⟩ := mem_epochsBetween.mp member
  exact absurd above (Nat.not_lt.mpr most)

theorem height_replay_le : (replay votes height).height ≤ height := by
  rw [replay, height_foldl_replayVotes]
  by_cases sets : ∃ epoch ∈ epochs height, setHeight votes epoch ≠ none
  · obtain ⟨epoch, member, same⟩ := LastWrite.exists_last sets
    obtain ⟨-, -, own⟩ := Option.map_eq_some_iff.mp (same VotedParameters.default.height)
    rw [← own]
    exact (mem_epochs.mp member).2
  · rw [LastWrite.last_of_unset fun epoch member => by
      by_contra some
      exact sets ⟨epoch, member, some⟩]
    exact Nat.zero_le height

theorem replay_append (le : low ≤ high) :
    replay votes high = (epochsBetween low high).foldl (replayVotes votes) (replay votes low) := by
  rw [replay, epochs_append le, List.foldl_append, ← replay]

/-- Between two heights the parameters change exactly where a boundary votes: they tell its height. -/
theorem replay_eq_iff (le : low ≤ high) : replay votes high = replay votes low ↔ Unvoted votes low high := by
  rw [replay_append le]
  constructor
  · intro same epoch member
    by_contra some
    have sets : ∃ epoch ∈ epochsBetween low high, setHeight votes epoch ≠ none :=
      ⟨epoch, member, mt Option.map_eq_none_iff.mp some⟩
    obtain ⟨last, inItems, value⟩ := LastWrite.exists_last sets
    obtain ⟨-, -, own⟩ := Option.map_eq_some_iff.mp (value (replay votes low).height)
    rw [← height_foldl_replayVotes, same] at own
    have most := @height_replay_le low votes
    rw [← own] at most
    exact Nat.not_lt.mpr most (mem_epochsBetween.mp inItems).1
  · exact foldl_replayVotes_of_unvoted

theorem replay_eq_replay_iff : replay votes low = replay votes high ↔ Unvoted votes (min low high) (max low high) := by
  rcases Nat.le_total low high with le | le
  · rw [Nat.min_eq_left le, Nat.max_eq_right le, eq_comm, replay_eq_iff le]
  · rw [Nat.min_eq_right le, Nat.max_eq_left le, replay_eq_iff le]

/-- The boundaries above the lower height set again whatever those up to it have moved. -/
structure VotedAgain (votes : Votes) (low high : Nat) : Prop where
  height : (replay votes low).height = VotedParameters.default.height ∨ ∃ epoch ∈ epochsBetween low high, votes epoch ≠ none
  fields : ∀ field ∈ parameterFields, field.2 (replay votes low) = field.2 VotedParameters.default ∨
    ∃ epoch ∈ epochsBetween low high, ∃ parsed, votes epoch = some parsed ∧ field.1 ∈ parsed

theorem replay_of_lost_iff (le : low ≤ high) (lost : ∀ epoch ∈ epochs low, others epoch = none)
    (kept : ∀ epoch ∈ epochsBetween low high, others epoch = votes epoch) :
    replay others high = replay votes high ↔ VotedAgain votes low high := by
  rw [replay_append le, replay_append le, foldl_replayVotes_congr kept, replay, foldl_replayVotes_of_unvoted lost,
    eq_comm, foldl_replayVotes_eq_iff]
  exact ⟨fun ⟨height, fields⟩ => ⟨height, fields⟩, fun again => ⟨again.height, again.fields⟩⟩

end Replay

/-! ### What is stored at a boundary -/

def votesIn (extension : Extension) : Option Extension.ParameterTable :=
  extension.parseParameters.toOption.filter fun parsed => parsed.entries ≠ []

def storedExtension (sr : SigmaRust) (db : Database) (id : BlockId) : Option Extension :=
  (History.getFullBlock sr db id).toOption.join.map (·.extension)

def votesAt (sr : SigmaRust) (db : Database) : Votes := fun epoch =>
  (HeaderStore.getByHeight sr db epoch).toOption.join.bind fun header =>
    (storedExtension sr db header.id).bind votesIn

theorem replayEpoch_eq : replayEpoch sr db params epoch = replayVotes (votesAt sr db) params epoch := by
  unfold replayEpoch replayVotes votesAt storedExtension votesIn
  rcases HeaderStore.getByHeight sr db epoch with error | _ | header
  · rfl
  · rfl
  · rcases read : History.getFullBlock sr db header.id with error | _ | block
    · simp [Except.toOption, read]
    · simp [Except.toOption, read]
    · rcases parse : block.extension.parseParameters with error | parsed
      · simp [Except.toOption, read, parse]
      · by_cases empty : parsed.entries = [] <;> simp [Except.toOption, read, parse, empty, Option.filter]

theorem storedExtension_congr {id : BlockId} (headers : after.get .headers id = before.get .headers id)
    (transactions : after.get .blockTransactions id = before.get .blockTransactions id)
    (extensions : after.get .extensions id = before.get .extensions id) :
    storedExtension sr after id = storedExtension sr before id := by
  have header : HeaderStore.get sr after id = HeaderStore.get sr before id := by
    rw [HeaderStore.get, HeaderStore.get, headers]
  have txs : BlockStore.getTransactions sr after id = BlockStore.getTransactions sr before id := by
    rw [BlockStore.getTransactions, BlockStore.getTransactions, transactions]
  have fields : BlockStore.getExtension after id = BlockStore.getExtension before id := by
    rw [BlockStore.getExtension, BlockStore.getExtension, extensions]
  unfold storedExtension History.getFullBlock
  rw [header]
  rcases HeaderStore.get sr before id with error | _ | header
  · rfl
  · rfl
  · dsimp only [bind, Except.bind]
    rw [txs]
    rcases BlockStore.getTransactions sr before id with error | _ | txs
    · rfl
    · rfl
    · dsimp only
      rw [fields]
      rcases BlockStore.getExtension before id with error | found
      · rfl
      · rfl

theorem initFromStorage_eq : initFromStorage sr db height = replay (votesAt sr db) height := by
  rw [initFromStorage, replay]
  exact List.foldl_ext _ _ _ fun params epoch _ => replayEpoch_eq

theorem initFromStorage_eq_iff (le : low ≤ high) :
    initFromStorage sr db high = initFromStorage sr db low ↔ Unvoted (votesAt sr db) low high := by
  rw [initFromStorage_eq, initFromStorage_eq, replay_eq_iff le]

theorem initFromStorage_congr (same : ∀ epoch ∈ epochs height, votesAt sr after epoch = votesAt sr before epoch) :
    initFromStorage sr after height = initFromStorage sr before height := by
  rw [initFromStorage_eq, initFromStorage_eq]
  exact foldl_replayVotes_congr same

/-! ### Sound stores -/

/-- Each id stands for one height: the index names it there only, and its stored header has it. -/
structure Sound (sr : SigmaRust) (heightOf : BlockId → Nat) (db : Database) : Prop where
  index : ∀ height id, db.get .headerChain height = some id → heightOf id = height
  headers : ∀ id header, HeaderStore.get sr db id = .ok (some header) → header.id = id ∧ header.height = heightOf id

section Sound
variable {heightOf : BlockId → Nat} {header : Header}

theorem Sound.getByHeight (sound : Sound sr heightOf db)
    (found : HeaderStore.getByHeight sr db height = .ok (some header)) :
    db.get .headerChain height = some header.id ∧ header.height = height := by
  unfold HeaderStore.getByHeight at found
  split at found
  · next id slot =>
      obtain ⟨named, high⟩ := sound.headers id header found
      rw [named]
      exact ⟨slot, high.trans (sound.index height id slot)⟩
  · cases found

theorem getFullBlock_header {id : BlockId} {block : FullBlock}
    (read : History.getFullBlock sr db id = .ok (some block)) : HeaderStore.get sr db id = .ok (some block.header) := by
  rw [History.getFullBlock, Except.bind_ok_eq_ok] at read
  obtain ⟨_ | header, found, read⟩ := read
  · cases read
  · dsimp only at read
    rw [Except.bind_ok_eq_ok] at read
    obtain ⟨_ | transactions, -, read⟩ := read
    · cases read
    · dsimp only at read
      rw [Except.bind_ok_eq_ok] at read
      obtain ⟨extension, -, read⟩ := read
      cases read
      exact found

/-- The update of a running node and the replay of a start read the same. -/
theorem Sound.updateAtHeight_eq (sound : Sound sr heightOf db) : updateAtHeight sr db params height =
    if isEpochBoundary height then replayEpoch sr db params height else params := by
  unfold updateAtHeight replayEpoch
  split
  · next boundary =>
      rcases found : HeaderStore.getByHeight sr db height with error | _ | header
      · rfl
      · rfl
      · dsimp only
        rcases read : History.getFullBlock sr db header.id with error | _ | block
        · rfl
        · rfl
        · have high : block.height = height := by
            obtain ⟨slot, -⟩ := sound.getByHeight found
            exact (sound.headers _ _ (getFullBlock_header read)).2.trans (sound.index height _ slot)
          dsimp only
          rw [updateFromBlock, high, if_pos boundary]
  · rfl

theorem Sound.updateForHeightRange_eq (sound : Sound sr heightOf db) (height count : Nat) :
    updateForHeightRange sr db (height + 1) (height + count) (initFromStorage sr db height) =
      initFromStorage sr db (height + count) := by
  have length : height + count + 1 - (height + 1) = count := by omega
  rw [updateForHeightRange, length]
  induction count with
  | zero => rfl
  | succ count ih =>
      have last : height + 1 + 1 * count = height + count + 1 := by omega
      rw [List.range'_concat, List.foldl_append, ih (by omega), ← Nat.add_assoc, last, List.foldl_cons, List.foldl_nil,
        sound.updateAtHeight_eq, initFromStorage, initFromStorage, epochs_succ, List.foldl_append]
      split <;> rfl

end Sound

end ErgoNode.Proof.Manager
