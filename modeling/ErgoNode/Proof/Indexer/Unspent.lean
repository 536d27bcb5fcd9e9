import ErgoNode.Proof.Indexer.Runs

/-!
# The unspent boxes of addresses and tokens

A record lists the places of its boxes. The sign of an entry says whether the box is spent, so that the place
has to be one whose sign can be turned around.
-/

namespace ErgoNode.Proof.Indexer
open Lib ExtraIndexer

def unspent (indexes : List Int64) : List UInt64 := (indexes.filter fun index => 0 ≤ index).map Int64.toUInt64

/-! ### Lists of signed places -/

section Places
variable {place : UInt64} {index : Int64} {indexes : List Int64}

theorem toInt_toInt64 (fits : place.toNat < 2 ^ 63) : place.toInt64.toInt = place.toNat := by
  change place.toBitVec.toInt = _
  rw [BitVec.toInt_eq_toNat_of_lt]
  · rfl
  · change 2 * place.toNat < 2 ^ 64
    omega

theorem nonneg_toInt64 (fits : place.toNat < 2 ^ 63) : 0 ≤ place.toInt64 := by
  rw [Int64.le_iff_toInt_le, toInt_toInt64 fits]
  exact Int.natCast_nonneg _

theorem not_nonneg_toInt64 (large : 2 ^ 63 ≤ place.toNat) : ¬ 0 ≤ place.toInt64 := by
  have bound := place.toNat_lt
  rw [Int64.le_iff_toInt_le]
  change ¬ (0 : Int) ≤ place.toBitVec.toInt
  rw [BitVec.toInt_eq_toNat_cond, if_neg]
  · change ¬ (0 : Int) ≤ (place.toNat : Int) - ((2 ^ 64 : Nat) : Int)
    omega
  · change ¬ 2 * place.toNat < 2 ^ 64
    omega

theorem not_nonneg_neg (positive : place ≠ 0) (fits : place.toNat < 2 ^ 63) : ¬ 0 ≤ -place.toInt64 := by
  have some : 0 < place.toNat := Nat.pos_of_ne_zero fun zero => positive (UInt64.toNat_inj.mp zero)
  rw [Int64.le_iff_toInt_le, Int64.toInt_neg, toInt_toInt64 fits, Int.bmod_eq_of_le (by omega) (by omega)]
  change ¬ (0 : Int) ≤ _
  omega

theorem unspent_cons (index : Int64) (rest : List Int64) :
    unspent (index :: rest) = if 0 ≤ index then index.toUInt64 :: unspent rest else unspent rest := by
  unfold unspent
  rw [List.filter_cons]
  by_cases nonneg : 0 ≤ index
  · simp [nonneg]
  · simp [nonneg]

theorem unspent_append (first second : List Int64) : unspent (first ++ second) = unspent first ++ unspent second := by
  rw [unspent, List.filter_append, List.map_append, unspent, unspent]

theorem unspent_replicate (fits : place.toNat < 2 ^ 63) (count : Nat) :
    unspent (List.replicate count place.toInt64) = List.replicate count place := by
  induction count with
  | zero => rfl
  | succ count ih => rw [List.replicate_succ, unspent_cons, if_pos (nonneg_toInt64 fits), ih]; rfl

theorem unspent_replicate_of_large (large : 2 ^ 63 ≤ place.toNat) (count : Nat) :
    unspent (List.replicate count place.toInt64) = [] := by
  induction count with
  | zero => rfl
  | succ count ih => rw [List.replicate_succ, unspent_cons, if_neg (not_nonneg_toInt64 large), ih]

theorem unspent_spendIndex (positive : place ≠ 0) (fits : place.toNat < 2 ^ 63) :
    unspent (spendIndex place.toInt64 indexes) = (unspent indexes).erase place := by
  induction indexes with
  | nil => rfl
  | cons entry rest ih =>
      rw [spendIndex]
      by_cases same : entry = place.toInt64
      · subst same
        rw [if_pos rfl, unspent_cons, if_neg (not_nonneg_neg positive fits), unspent_cons,
          if_pos (nonneg_toInt64 fits)]
        exact (List.erase_cons_head _ _).symm
      · have other : ¬ (entry.toUInt64 == place) = true := by
          intro equal
          exact same (congrArg UInt64.toInt64 (beq_iff_eq.mp equal))
        rw [if_neg same, unspent_cons, unspent_cons, ih]
        split
        · rw [List.erase_cons_tail other]
        · rfl

theorem spendIndex_zero (indexes : List Int64) : spendIndex 0 indexes = indexes := by
  induction indexes with
  | nil => rfl
  | cons entry rest ih =>
      rw [spendIndex]
      split
      · next zero =>
          subst zero
          rfl
      · rw [ih]

end Places

/-! ### The lists of a token -/

section Tokens
variable {sr : SigmaRust} {tokens : Table Digest32 IndexedToken} {place : UInt64} {tokenId : Digest32}
variable {list : List (Digest32 × UInt64)}

def tokenIndexes (tokens : Table Digest32 IndexedToken) (key : Digest32) : List Int64 :=
  ((tokens.lookup key).map IndexedToken.boxIndexes).getD []

theorem tokenIndexes_addTokenBox (token : Digest32 × UInt64) (key : Digest32) :
    tokenIndexes (addTokenBox sr place tokens token) key = if tokenUniqueId sr token.1 = key then
      tokenIndexes tokens key ++ [place.toInt64] else tokenIndexes tokens key := by
  unfold tokenIndexes addTokenBox
  by_cases same : tokenUniqueId sr token.1 = key
  · subst same
    rw [if_pos rfl, AList.lookup_insert]
    cases tokens.lookup (tokenUniqueId sr token.1) <;> rfl
  · rw [if_neg same, AList.lookup_insert_ne (Ne.symm same)]

theorem tokenIndexes_spendTokenBox (token : Digest32 × UInt64) (key : Digest32) :
    tokenIndexes (spendTokenBox sr place tokens token) key = if tokenUniqueId sr token.1 = key then
      spendIndex place.toInt64 (tokenIndexes tokens key) else tokenIndexes tokens key := by
  unfold tokenIndexes spendTokenBox
  by_cases same : tokenUniqueId sr token.1 = key
  · subst same
    rw [if_pos rfl]
    split
    · next record there =>
        rw [AList.lookup_insert, there]
        rfl
    · next missing =>
        rw [missing]
        rfl
  · rw [if_neg same]
    split
    · rw [AList.lookup_insert_ne (Ne.symm same)]
    · rfl

theorem tokenIndexes_addTokenBoxes (idsApart : Function.Injective (tokenUniqueId sr)) :
    tokenIndexes (list.foldl (addTokenBox sr place) tokens) (tokenUniqueId sr tokenId) =
      tokenIndexes tokens (tokenUniqueId sr tokenId) ++
        List.replicate ((list.map Prod.fst).count tokenId) place.toInt64 := by
  induction list generalizing tokens with
  | nil => simp
  | cons token rest ih =>
      rw [List.foldl_cons, ih, tokenIndexes_addTokenBox, List.map_cons, List.count_cons]
      by_cases same : token.1 = tokenId
      · subst same
        rw [if_pos rfl, List.append_assoc, if_pos (beq_self_eq_true _), Nat.add_comm, List.replicate_add]
        rfl
      · rw [if_neg fun equal => same (idsApart equal), if_neg fun equal => same (beq_iff_eq.mp equal), Nat.add_zero]

theorem tokenIndexes_spendTokenBoxes (idsApart : Function.Injective (tokenUniqueId sr))
    (distinct : (list.map Prod.fst).Nodup) :
    tokenIndexes (list.foldl (spendTokenBox sr place) tokens) (tokenUniqueId sr tokenId) =
      if tokenId ∈ list.map Prod.fst then
        spendIndex place.toInt64 (tokenIndexes tokens (tokenUniqueId sr tokenId))
      else tokenIndexes tokens (tokenUniqueId sr tokenId) := by
  induction list generalizing tokens with
  | nil => rfl
  | cons token rest ih =>
      obtain ⟨fresh, distinct⟩ := List.nodup_cons.mp distinct
      rw [List.foldl_cons, ih distinct, tokenIndexes_spendTokenBox, List.map_cons]
      by_cases same : token.1 = tokenId
      · subst same
        rw [if_neg fresh, if_pos rfl, if_pos List.mem_cons_self]
      · rw [if_neg fun equal => same (idsApart equal)]
        simp only [List.mem_cons, Ne.symm same, false_or]

end Tokens

/-! ### Views of the boxes that are not spent -/

structure Shows (live : Table Digest32 IndexedErgoBox) (shown : IndexedErgoBox → Prop) (view : List UInt64) : Prop where
  once : view.Nodup
  exactly : ∀ place, place ∈ view ↔ ∃ id ieb, live.lookup id = some ieb ∧ shown ieb ∧ ieb.globalIndex = place

def AtAddress (tree : Digest32) (ieb : IndexedErgoBox) : Prop := ieb.ergoTreeHash = tree

def WithToken (tokenId : Digest32) (ieb : IndexedErgoBox) : Prop := tokenId ∈ ieb.tokens.map Prod.fst

instance (tree : Digest32) : DecidablePred (AtAddress tree) := fun _ => inferInstanceAs (Decidable (_ = _))
instance (tokenId : Digest32) : DecidablePred (WithToken tokenId) := fun _ => inferInstanceAs (Decidable (_ ∈ _))

/-- What is looked up for every address and every token shows the boxes that are indexed and not spent. -/
structure ViewsExact (sr : SigmaRust) (run : IndexRun) : Prop where
  places : ∀ id other ieb same, run.live.lookup id = some ieb → run.live.lookup other = some same →
    ieb.globalIndex = same.globalIndex → id = other
  address : ∀ tree, ∃ found, (getAddress tree).exec run.indexer = (.ok found, run.indexer) ∧
    Shows run.live (AtAddress tree) (unspent ((found.map IndexedErgoAddress.boxIndexes).getD []))
  token : ∀ tokenId, ∃ found, (getToken sr tokenId).exec run.indexer = (.ok found, run.indexer) ∧
    Shows run.live (WithToken tokenId) (unspent ((found.map IndexedToken.boxIndexes).getD []))

/-- A new box is not live, lists each token once and has a place below 2^63; the box at place zero is not
spent. -/
def Signable (run : IndexRun) : IndexRun.Action → Prop
  | .indexOutput output => run.live.lookup output.boxId = none ∧ (output.tokens.map Prod.fst).Nodup ∧
      run.indexer.state.globalBoxIndex.toNat < 2 ^ 63
  | .spendBox boxId _ _ => ∀ ieb ∈ run.live.lookup boxId, ieb.globalIndex ≠ 0

instance (run : IndexRun) : (action : IndexRun.Action) → Decidable (Signable run action)
  | .indexOutput _ => inferInstanceAs (Decidable (_ ∧ _ ∧ _))
  | .spendBox _ _ _ => inferInstanceAs (Decidable (∀ ieb ∈ _, _))

section Shows
variable {live : Table Digest32 IndexedErgoBox} {shown : IndexedErgoBox → Prop} [DecidablePred shown]
variable {view : List UInt64} {id : Digest32} {ieb : IndexedErgoBox}

theorem Shows.add (shows : Shows live shown view) (unlisted : live.lookup id = none)
    (fresh : ∀ other same, live.lookup other = some same → same.globalIndex ≠ ieb.globalIndex) :
    Shows (live.insert id ieb) shown (if shown ieb then view ++ [ieb.globalIndex] else view) := by
  have apart : ieb.globalIndex ∉ view := by
    intro member
    obtain ⟨other, same, there, -, equal⟩ := (shows.exactly _).mp member
    exact fresh other same there equal
  have old : ∀ place, (∃ other same, (live.insert id ieb).lookup other = some same ∧ shown same ∧
      same.globalIndex = place) ↔ (shown ieb ∧ ieb.globalIndex = place) ∨ place ∈ view := by
    intro place
    rw [shows.exactly]
    constructor
    · rintro ⟨other, same, there, seen, equal⟩
      rcases Entries.lookup_insert_iff.mp there with ⟨-, rfl⟩ | ⟨-, before⟩
      · exact .inl ⟨seen, equal⟩
      · exact .inr ⟨other, same, before, seen, equal⟩
    · rintro (⟨seen, equal⟩ | ⟨other, same, before, seen, equal⟩)
      · exact ⟨id, ieb, AList.lookup_insert _, seen, equal⟩
      · refine ⟨other, same, Entries.lookup_insert_iff.mpr (.inr ⟨?_, before⟩), seen, equal⟩
        rintro rfl
        rw [unlisted] at before
        cases before
  by_cases seen : shown ieb
  · rw [if_pos seen]
    refine ⟨List.nodup_append.mpr ⟨shows.once, List.nodup_singleton _, ?_⟩, fun place => ?_⟩
    · rintro a member _ (_ | ⟨_, ⟨⟩⟩) rfl
      exact apart member
    · rw [old, List.mem_append, List.mem_singleton, or_comm, eq_comm]
      simp [seen]
  · rw [if_neg seen]
    refine ⟨shows.once, fun place => ?_⟩
    rw [old]
    simp [seen]

theorem Shows.spend (shows : Shows live shown view)
    (mine : ∀ same, live.lookup id = some same → same = ieb)
    (alone : ∀ other same, live.lookup other = some same → same.globalIndex = ieb.globalIndex → other = id) :
    Shows (live.erase id) shown (if shown ieb then view.erase ieb.globalIndex else view) := by
  by_cases seen : shown ieb
  · rw [if_pos seen]
    refine ⟨shows.once.erase _, fun place => ?_⟩
    rw [shows.once.mem_erase_iff, shows.exactly]
    constructor
    · rintro ⟨different, other, same, there, visible, rfl⟩
      refine ⟨other, same, Entries.lookup_erase_iff.mpr ⟨?_, there⟩, visible, rfl⟩
      rintro rfl
      exact different (congrArg IndexedErgoBox.globalIndex (mine same there))
    · rintro ⟨other, same, there, visible, rfl⟩
      obtain ⟨different, before⟩ := Entries.lookup_erase_iff.mp there
      exact ⟨fun equal => different (alone other same before equal), other, same, before, visible, rfl⟩
  · rw [if_neg seen]
    refine ⟨shows.once, fun place => ?_⟩
    rw [shows.exactly]
    constructor
    · rintro ⟨other, same, there, visible, rfl⟩
      refine ⟨other, same, Entries.lookup_erase_iff.mpr ⟨?_, there⟩, visible, rfl⟩
      rintro rfl
      rw [mine same there] at visible
      exact seen visible
    · rintro ⟨other, same, there, visible, rfl⟩
      exact ⟨other, same, (Entries.lookup_erase_iff.mp there).2, visible, rfl⟩

end Shows

/-! ### Runs -/

section Run
variable {sr : SigmaRust} {run next : IndexRun} {action : IndexRun.Action}

/-- Every place is taken once and can be signed, and the lists of addresses and tokens show the live boxes. -/
structure Placed (sr : SigmaRust) (run : IndexRun) : Prop extends Buffered sr run where
  alone : ∀ id other ieb same, run.indexer.boxes.lookup id = some ieb →
    run.indexer.boxes.lookup other = some same → ieb.globalIndex = same.globalIndex → id = other
  early : ∀ id ieb, run.indexer.boxes.lookup id = some ieb →
    ieb.globalIndex.toNat < run.indexer.state.globalBoxIndex.toNat
  fits : run.indexer.state.globalBoxIndex.toNat ≤ 2 ^ 63
  distinct : ∀ id ieb, run.indexer.boxes.lookup id = some ieb → (ieb.tokens.map Prod.fst).Nodup
  signed : ∀ id ieb, run.indexer.boxes.lookup id = some ieb → ieb.isSpent = true → ieb.globalIndex ≠ 0
  addressView : ∀ tree, Shows run.live (AtAddress tree) (unspent (addressAt run.indexer.addresses tree).boxIndexes)
  tokenView : ∀ tokenId, Shows run.live (WithToken tokenId)
    (unspent (tokenIndexes run.indexer.tokens (tokenUniqueId sr tokenId)))

theorem shows_empty (shown : IndexedErgoBox → Prop) : Shows ∅ shown [] where
  once := List.nodup_nil
  exactly place := by simp

theorem placed_start (sr : SigmaRust) : Placed sr .start where
  toBuffered := buffered_start sr
  alone _ _ _ _ found := by simp [IndexRun.start, ExtraIndexer.new] at found
  early _ _ found := by simp [IndexRun.start, ExtraIndexer.new] at found
  fits := by simp [IndexRun.start, ExtraIndexer.new, IndexerState.default]
  distinct _ _ found := by simp [IndexRun.start, ExtraIndexer.new] at found
  signed _ _ found := by simp [IndexRun.start, ExtraIndexer.new] at found
  addressView _ := shows_empty _
  tokenView _ := shows_empty _

theorem Placed.viewsExact (placed : Placed sr run) : ViewsExact sr run where
  places id other ieb same there here equal :=
    placed.alone id other ieb same ((placed.live _ _).mp there).1 ((placed.live _ _).mp here).1 equal
  address tree := by
    have view := placed.addressView tree
    rw [← getD_map_lookup IndexedErgoAddress.boxIndexes] at view
    exact ⟨_, placed.exec_getAddress tree, view⟩
  token tokenId := ⟨_, placed.exec_getToken tokenId, placed.tokenView tokenId⟩

/-! A new box. -/

section New
variable {output : Output} (placed : Placed sr run)
include placed

theorem Placed.fresh {other : Digest32} {same : IndexedErgoBox} (there : run.indexer.boxes.lookup other = some same) :
    same.globalIndex ≠ run.indexer.state.globalBoxIndex := by
  intro equal
  have before := placed.early other same there
  rw [equal] at before
  exact Nat.lt_irrefl _ before

theorem Placed.fresh_of_live {other : Digest32} {same : IndexedErgoBox} (there : run.live.lookup other = some same) :
    same.globalIndex ≠ run.indexer.state.globalBoxIndex :=
  placed.fresh ((placed.live other same).mp there).1

omit placed in
theorem boxIndexes_indexed (output : Output) (tree : Digest32) :
    (addressAt (indexed sr run.indexer output).addresses tree).boxIndexes = if output.tree sr = tree then
      (addressAt run.indexer.addresses tree).boxIndexes ++ [run.indexer.state.globalBoxIndex.toInt64]
      else (addressAt run.indexer.addresses tree).boxIndexes := by
  rw [addressAt_indexed]
  split <;> rfl

variable (unlisted : run.live.lookup output.boxId = none) (small : run.indexer.state.globalBoxIndex.toNat < 2 ^ 63)
include unlisted small

theorem Placed.addressView_indexed (tree : Digest32) :
    Shows (run.live.insert output.boxId (output.ieb sr run.indexer.state.globalBoxIndex)) (AtAddress tree)
      (unspent (addressAt (indexed sr run.indexer output).addresses tree).boxIndexes) := by
  have shown := @Shows.add _ _ _ _ _ (output.ieb sr run.indexer.state.globalBoxIndex) (placed.addressView tree) unlisted
    fun other same there => placed.fresh_of_live there
  rw [boxIndexes_indexed]
  by_cases here : output.tree sr = tree
  · have mine : AtAddress tree (output.ieb sr run.indexer.state.globalBoxIndex) := here
    have one := unspent_replicate small 1
    rw [if_pos mine] at shown
    rw [if_pos here, unspent_append]
    exact one ▸ shown
  · have elsewhere : ¬ AtAddress tree (output.ieb sr run.indexer.state.globalBoxIndex) := here
    rw [if_neg elsewhere] at shown
    rw [if_neg here]
    exact shown

theorem Placed.tokenView_indexed (idsApart : Function.Injective (tokenUniqueId sr))
    (once : (output.tokens.map Prod.fst).Nodup) (tokenId : Digest32) :
    Shows (run.live.insert output.boxId (output.ieb sr run.indexer.state.globalBoxIndex)) (WithToken tokenId)
      (unspent (tokenIndexes (indexed sr run.indexer output).tokens (tokenUniqueId sr tokenId))) := by
  have shown := @Shows.add _ _ _ _ _ (output.ieb sr run.indexer.state.globalBoxIndex) (placed.tokenView tokenId) unlisted
    fun other same there => placed.fresh_of_live there
  change Shows _ _ (unspent (tokenIndexes (output.tokens.foldl _ _) _))
  rw [tokenIndexes_addTokenBoxes idsApart, unspent_append, unspent_replicate small]
  by_cases listed : tokenId ∈ output.tokens.map Prod.fst
  · have holds : WithToken tokenId (output.ieb sr run.indexer.state.globalBoxIndex) := listed
    rw [if_pos holds] at shown
    rw [List.count_eq_one_of_mem once listed]
    exact shown
  · have lacks : ¬ WithToken tokenId (output.ieb sr run.indexer.state.globalBoxIndex) := listed
    rw [if_neg lacks] at shown
    rw [List.count_eq_zero_of_not_mem listed, List.replicate_zero, List.append_nil]
    exact shown

end New

theorem Placed.indexOutput (idsApart : Function.Injective (tokenUniqueId sr)) (placed : Placed sr run) {output : Output}
    (signable : Signable run (.indexOutput output)) : Placed sr ⟨indexed sr run.indexer output,
      run.live.insert output.boxId (output.ieb sr run.indexer.state.globalBoxIndex)⟩ := by
  obtain ⟨unlisted, once, small⟩ := signable
  have next : (run.indexer.state.globalBoxIndex + 1).toNat = run.indexer.state.globalBoxIndex.toNat + 1 := by
    rw [UInt64.toNat_add, Nat.mod_eq_of_lt]
    · rfl
    · change _ + 1 < _
      omega
  refine ⟨placed.toBuffered.indexOutput output, ?_, ?_, ?_, ?_, ?_, placed.addressView_indexed unlisted small,
    placed.tokenView_indexed unlisted small idsApart once⟩
  · apply Entries.apart_insert
    · exact fun other same there equal => absurd equal (placed.fresh there)
    · exact placed.alone
  · change ∀ id ieb, _ → _ < (run.indexer.state.globalBoxIndex + 1).toNat
    rw [next]
    refine Entries.forall_lookup_insert ?_ fun id ieb old => ?_
    · exact Nat.lt_succ_self _
    · exact Nat.lt_succ_of_lt (placed.early id ieb old)
  · change (run.indexer.state.globalBoxIndex + 1).toNat ≤ _
    omega
  · exact Entries.forall_lookup_insert once placed.distinct
  · exact Entries.forall_lookup_insert nofun placed.signed

/-! A box that is spent. -/

section Spent
variable {boxId txId : Digest32} {height : UInt32} {ieb : IndexedErgoBox} (placed : Placed sr run)
variable (found : run.indexer.boxes.lookup boxId = some ieb)
include placed found

theorem Placed.shows_erase {shown : IndexedErgoBox → Prop} [DecidablePred shown] {view : List UInt64}
    (shows : Shows run.live shown view) :
    Shows (run.live.erase boxId) shown (if shown ieb then view.erase ieb.globalIndex else view) := by
  apply shows.spend
  · intro same there
    have here := ((placed.live boxId same).mp there).1
    rw [found] at here
    exact (Option.some.inj here).symm
  · intro other same there equal
    exact placed.alone other boxId same ieb ((placed.live other same).mp there).1 found equal

theorem Placed.addressView_spent (positive : ieb.globalIndex ≠ 0) (tree : Digest32) :
    Shows (run.live.erase boxId) (AtAddress tree)
      (unspent (addressAt (spent sr run.indexer boxId ieb txId height).addresses tree).boxIndexes) := by
  have small : ieb.globalIndex.toNat < 2 ^ 63 := Nat.lt_of_lt_of_le (placed.early boxId ieb found) placed.fits
  have shown := placed.shows_erase found (placed.addressView tree)
  rw [addressAt_spent]
  by_cases here : ieb.ergoTreeHash = tree
  · have mine : AtAddress tree ieb := here
    rw [if_pos mine] at shown
    rw [if_pos here]
    change Shows _ _ (unspent (spendIndex _ _))
    rw [unspent_spendIndex positive small]
    exact shown
  · have elsewhere : ¬ AtAddress tree ieb := here
    rw [if_neg elsewhere] at shown
    rw [if_neg here]
    exact shown

theorem Placed.tokenView_spent (idsApart : Function.Injective (tokenUniqueId sr)) (positive : ieb.globalIndex ≠ 0)
    (tokenId : Digest32) : Shows (run.live.erase boxId) (WithToken tokenId) (unspent (tokenIndexes
      (spent sr run.indexer boxId ieb txId height).tokens (tokenUniqueId sr tokenId))) := by
  have small : ieb.globalIndex.toNat < 2 ^ 63 := Nat.lt_of_lt_of_le (placed.early boxId ieb found) placed.fits
  have shown := placed.shows_erase found (placed.tokenView tokenId)
  change Shows _ _ (unspent (tokenIndexes (ieb.tokens.foldl _ _) _))
  rw [tokenIndexes_spendTokenBoxes idsApart (placed.distinct boxId ieb found)]
  by_cases listed : tokenId ∈ ieb.tokens.map Prod.fst
  · have holds : WithToken tokenId ieb := listed
    rw [if_pos holds] at shown
    rw [if_pos listed, unspent_spendIndex positive small]
    exact shown
  · have lacks : ¬ WithToken tokenId ieb := listed
    rw [if_neg lacks] at shown
    rw [if_neg listed]
    exact shown

theorem Placed.spendBox (idsApart : Function.Injective (tokenUniqueId sr))
    (signable : Signable run (.spendBox boxId txId height)) :
    Placed sr ⟨spent sr run.indexer boxId ieb txId height, run.live.erase boxId⟩ := by
  have positive : ieb.globalIndex ≠ 0 := by
    cases marked : ieb.isSpent with
    | false => exact signable ieb ((placed.live boxId ieb).mpr ⟨found, marked⟩)
    | true => exact placed.signed boxId ieb found marked
  refine ⟨placed.toBuffered.spendBox found txId height, ?_, ?_, placed.fits, ?_, ?_,
    placed.addressView_spent found positive, placed.tokenView_spent found idsApart positive⟩
  · apply Entries.apart_insert
    · exact fun other same there equal => placed.alone other boxId same ieb there found equal
    · exact placed.alone
  · exact Entries.forall_lookup_insert (placed.early boxId ieb found) placed.early
  · exact Entries.forall_lookup_insert (placed.distinct boxId ieb found) placed.distinct
  · exact Entries.forall_lookup_insert (fun _ => positive) placed.signed

end Spent

theorem Placed.spendBox_of_none (placed : Placed sr run) {boxId : Digest32}
    (missing : run.indexer.boxes.lookup boxId = none) : Placed sr ⟨run.indexer, run.live.erase boxId⟩ := by
  have same : run.live.erase boxId = run.live := erase_of_unlisted (placed.unlisted fun ieb there => by
    rw [missing] at there
    cases there)
  rw [same]
  exact placed

theorem placed_step (idsApart : Function.Injective (tokenUniqueId sr)) (placed : Placed sr run)
    (signable : Signable run action) (taken : run.step sr action = some next) : Placed sr next := by
  cases action with
  | indexOutput output =>
      rw [placed.step_indexOutput] at taken
      cases taken
      exact placed.indexOutput idsApart signable
  | spendBox boxId txId height =>
      cases there : run.indexer.boxes.lookup boxId with
      | none =>
          rw [placed.step_spendBox_of_none there] at taken
          cases taken
          exact placed.spendBox_of_none there
      | some ieb =>
          rw [placed.step_spendBox there] at taken
          cases taken
          exact placed.spendBox there idsApart signable

/-! A step that leaves exact views was one that the signs can tell. -/

theorem ViewsExact.addressView (exact : ViewsExact sr run) (buffered : Buffered sr run) (tree : Digest32) :
    Shows run.live (AtAddress tree) (unspent (addressAt run.indexer.addresses tree).boxIndexes) := by
  obtain ⟨found, looked, view⟩ := exact.address tree
  rw [buffered.exec_getAddress] at looked
  cases looked
  rw [← getD_map_lookup IndexedErgoAddress.boxIndexes]
  exact view

theorem ViewsExact.tokenView (exact : ViewsExact sr run) (buffered : Buffered sr run) (tokenId : Digest32) :
    Shows run.live (WithToken tokenId) (unspent (tokenIndexes run.indexer.tokens (tokenUniqueId sr tokenId))) := by
  obtain ⟨found, looked, view⟩ := exact.token tokenId
  rw [buffered.exec_getToken] at looked
  cases looked
  exact view

theorem signable_indexOutput_of_exact (idsApart : Function.Injective (tokenUniqueId sr)) (placed : Placed sr run)
    {output : Output} (exact : ViewsExact sr ⟨indexed sr run.indexer output,
      run.live.insert output.boxId (output.ieb sr run.indexer.state.globalBoxIndex)⟩) :
    Signable run (.indexOutput output) := by
  have buffered := placed.toBuffered.indexOutput output
  have small : run.indexer.state.globalBoxIndex.toNat < 2 ^ 63 := by
    by_contra large
    have view := exact.addressView buffered (output.tree sr)
    have lost := unspent_replicate_of_large (Nat.le_of_not_lt large) 1
    rw [List.replicate_one] at lost
    rw [boxIndexes_indexed, if_pos rfl, unspent_append, lost, List.append_nil] at view
    have member := (view.exactly run.indexer.state.globalBoxIndex).mpr
      ⟨output.boxId, _, AList.lookup_insert _, rfl, rfl⟩
    obtain ⟨other, same, there, -, equal⟩ := ((placed.addressView _).exactly _).mp member
    exact placed.fresh_of_live there equal
  refine ⟨?_, ?_, small⟩
  · cases there : run.live.lookup output.boxId with
    | none => rfl
    | some old =>
        have before := ((placed.addressView old.ergoTreeHash).exactly old.globalIndex).mpr
          ⟨output.boxId, old, there, rfl, rfl⟩
        have after : old.globalIndex ∈
            unspent (addressAt (indexed sr run.indexer output).addresses old.ergoTreeHash).boxIndexes := by
          rw [boxIndexes_indexed]
          split
          · rw [unspent_append]
            exact List.mem_append_left _ before
          · exact before
        obtain ⟨other, same, here, -, equal⟩ :=
          ((exact.addressView buffered old.ergoTreeHash).exactly old.globalIndex).mp after
        rcases Entries.lookup_insert_iff.mp here with ⟨-, rfl⟩ | ⟨different, kept⟩
        · exact absurd equal.symm (placed.fresh_of_live there)
        · exact absurd (placed.viewsExact.places other _ same old kept there equal) different
  · refine List.nodup_iff_count_le_one.mpr fun tokenId => ?_
    have view := (exact.tokenView buffered tokenId).once
    change (unspent (tokenIndexes (output.tokens.foldl _ _) _)).Nodup at view
    rw [tokenIndexes_addTokenBoxes idsApart, unspent_append, unspent_replicate small] at view
    exact List.nodup_replicate.mp (List.nodup_append.mp view).2.1

theorem signable_spendBox_of_exact (placed : Placed sr run) {boxId txId : Digest32} {height : UInt32}
    {ieb : IndexedErgoBox} (there : run.live.lookup boxId = some ieb)
    (exact : ViewsExact sr ⟨spent sr run.indexer boxId ieb txId height, run.live.erase boxId⟩) :
    ieb.globalIndex ≠ 0 := by
  intro zero
  have found := ((placed.live boxId ieb).mp there).1
  have before := ((placed.addressView ieb.ergoTreeHash).exactly ieb.globalIndex).mpr ⟨boxId, ieb, there, rfl, rfl⟩
  have view := exact.addressView (placed.toBuffered.spendBox found txId height) ieb.ergoTreeHash
  have kept : (addressAt (spent sr run.indexer boxId ieb txId height).addresses ieb.ergoTreeHash).boxIndexes =
      (addressAt run.indexer.addresses ieb.ergoTreeHash).boxIndexes := by
    rw [addressAt_spent, if_pos rfl]
    change spendIndex ieb.globalIndex.toInt64 _ = _
    rw [zero]
    exact spendIndex_zero _
  rw [kept] at view
  obtain ⟨other, same, here, -, equal⟩ := (view.exactly ieb.globalIndex).mp before
  obtain ⟨different, old⟩ := Entries.lookup_erase_iff.mp here
  exact different (placed.viewsExact.places other boxId same ieb old there equal)

theorem signable_of_exact (idsApart : Function.Injective (tokenUniqueId sr)) (placed : Placed sr run)
    (taken : run.step sr action = some next) (exact : ViewsExact sr next) : Signable run action := by
  cases action with
  | indexOutput output =>
      rw [placed.step_indexOutput] at taken
      cases taken
      exact signable_indexOutput_of_exact idsApart placed exact
  | spendBox boxId txId height =>
      intro ieb there
      rw [placed.step_spendBox ((placed.live boxId ieb).mp there).1] at taken
      cases taken
      exact signable_spendBox_of_exact placed there exact

end Run

/-- The views are exact throughout a run exactly if every new box is not live, lists its tokens once and has a
place below 2^63, and the first box is not spent. Every run goes to its end. -/
theorem viewsExact_iff (sr : SigmaRust) (idsApart : Function.Injective (tokenUniqueId sr))
    (actions : List IndexRun.Action) :
    (∃ last, run (IndexRun.step sr) .start actions = some last) ∧
      (Always (IndexRun.step sr) (ViewsExact sr) .start actions ↔
        Along (IndexRun.step sr) Signable .start actions) := by
  obtain ⟨last, ran⟩ := exists_run_of_buffered (buffered_start sr) actions
  exact ⟨⟨last, ran⟩, always_iff_along (placed_step idsApart) (signable_of_exact idsApart) Placed.viewsExact
    (placed_start sr) ran⟩

def laterSpent : List IndexRun.Action :=
  [.indexOutput (sampleOutput 1 5), .indexOutput (sampleOutput 2 6), .spendBox (.filled 2) (.filled 9) 10,
    .spendBox (.filled 2) (.filled 9) 10]

theorem laterSpent_viewsExact : Always (IndexRun.step sampleHash) (ViewsExact sampleHash) .start laterSpent :=
  (viewsExact_iff sampleHash sampleHash_idsApart laterSpent).2.mpr (by decide +kernel)

def firstSpent : List IndexRun.Action :=
  [.indexOutput (sampleOutput 1 5), .spendBox (.filled 1) (.filled 9) 10]

theorem firstSpent_not_viewsExact :
    ¬ Always (IndexRun.step sampleHash) (ViewsExact sampleHash) .start firstSpent := by
  intro always
  have kept : (run (IndexRun.step sampleHash) .start firstSpent).map (fun last =>
      (unspent (addressAt last.indexer.addresses (.filled 1)).boxIndexes, last.live.entries)) = some ([0], []) := by
    decide +kernel
  obtain ⟨last, ran, kept⟩ := Option.map_eq_some_iff.mp kept
  obtain ⟨listed, none⟩ := Prod.mk.inj kept
  have view := (always last ⟨firstSpent, List.prefix_rfl, ran⟩).addressView (buffered_of_run ran) (.filled 1)
  rw [listed] at view
  obtain ⟨id, ieb, there, -⟩ := (view.exactly 0).mp (List.mem_singleton_self 0)
  have empty : last.live = ∅ := AList.ext none
  rw [empty] at there
  cases there

end ErgoNode.Proof.Indexer
