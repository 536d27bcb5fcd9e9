import ErgoNode.Lib.Wrapping
import ErgoNode.Proof.Indexer.Runs

/-!
# The balances of addresses

A balance is counted up and down with each box. It stays the sum of the boxes that are not spent as long as
nothing is taken off twice.
-/

namespace ErgoNode.Proof.Indexer
open Lib ExtraIndexer

def amountOf (tokenId : Digest32) (tokens : List (Digest32 × UInt64)) : Nat :=
  ((tokens.filter fun token => token.1 = tokenId).map fun token => token.2.toNat).sum

def total (live : Table Digest32 IndexedErgoBox) (held : IndexedErgoBox → Nat) : Nat :=
  ((live.entries.map Sigma.snd).map held).sum

def valueAt (tree : Digest32) (ieb : IndexedErgoBox) : Nat := if ieb.ergoTreeHash = tree then ieb.value.toNat else 0

def amountAt (tree tokenId : Digest32) (ieb : IndexedErgoBox) : Nat :=
  if ieb.ergoTreeHash = tree then amountOf tokenId ieb.tokens else 0

/-- What is looked up for every address has the sums of its boxes that are indexed and not spent. -/
def BalancesExact (run : IndexRun) : Prop :=
  ∀ tree, ∃ found, (getAddress tree).exec run.indexer = (.ok found, run.indexer) ∧
    ((found.map IndexedErgoAddress.balance).getD .new).nanoErgs.toInt = total run.live (valueAt tree) ∧
    ∀ tokenId, ((((found.map IndexedErgoAddress.balance).getD .new).tokens.lookup tokenId).getD 0).toInt =
      total run.live (amountAt tree tokenId)

def Worthless (ieb : IndexedErgoBox) : Prop := ieb.value = 0 ∧ ∀ token ∈ ieb.tokens, token.2 = 0

/-- A new box takes no place of a live box that is worth something and keeps the sums of its address below 2^63;
a box that is spent already is not spent again, unless it is worthless. -/
def CountedOnce (sr : SigmaRust) (run : IndexRun) : IndexRun.Action → Prop
  | .indexOutput output =>
      (∀ old ∈ run.live.lookup output.boxId, Worthless old) ∧
        total run.live (valueAt (output.tree sr)) + output.value.toNat < 2 ^ 63 ∧
        ∀ token ∈ output.tokens,
          total run.live (amountAt (output.tree sr) token.1) + amountOf token.1 output.tokens < 2 ^ 63
  | .spendBox boxId _ _ => ∀ ieb ∈ run.indexer.boxes.lookup boxId, ieb.isSpent = true → Worthless ieb

instance (ieb : IndexedErgoBox) : Decidable (Worthless ieb) := inferInstanceAs (Decidable (_ ∧ _))

instance (sr : SigmaRust) (run : IndexRun) : (action : IndexRun.Action) → Decidable (CountedOnce sr run action)
  | .indexOutput _ => inferInstanceAs (Decidable (_ ∧ _ ∧ _))
  | .spendBox _ _ _ => inferInstanceAs (Decidable (∀ ieb ∈ _, _ → _))

/-! ### Tables of token balances -/

section Tables
variable {tokens : List (Digest32 × UInt64)} {table : Table Digest32 Int64} {tokenId : Digest32}

theorem toInt64_eq_ofNat (value : UInt64) : value.toInt64 = Int64.ofNat value.toNat := by
  rw [← UInt64.toInt64_ofNat', UInt64.ofNat_toNat]

theorem amountOf_cons (token : Digest32 × UInt64) (rest : List (Digest32 × UInt64)) :
    amountOf tokenId (token :: rest) = (if token.1 = tokenId then token.2.toNat else 0) + amountOf tokenId rest := by
  unfold amountOf
  rw [List.filter_cons]
  by_cases same : token.1 = tokenId
  · simp [same]
  · simp [same]

theorem getD_addToken (token : Digest32 × UInt64) : ((BalanceInfo.addToken table token).lookup tokenId).getD 0 =
    (table.lookup tokenId).getD 0 + Int64.ofNat (if token.1 = tokenId then token.2.toNat else 0) := by
  unfold BalanceInfo.addToken
  by_cases same : token.1 = tokenId
  · subst same
    rw [if_pos rfl, AList.lookup_insert, toInt64_eq_ofNat]
    rfl
  · rw [if_neg same, AList.lookup_insert_ne (Ne.symm same)]
    exact (Int64.add_zero _).symm

theorem getD_subtractToken (token : Digest32 × UInt64) :
    ((BalanceInfo.subtractToken table token).lookup tokenId).getD 0 =
      (table.lookup tokenId).getD 0 - Int64.ofNat (if token.1 = tokenId then token.2.toNat else 0) := by
  unfold BalanceInfo.subtractToken
  by_cases same : token.1 = tokenId
  · subst same
    rw [if_pos rfl, toInt64_eq_ofNat]
    dsimp only
    split
    · next zero =>
        rw [AList.lookup_erase, zero]
        rfl
    · rw [AList.lookup_insert]
      rfl
  · rw [if_neg same]
    have kept : (table.lookup tokenId).getD 0 - Int64.ofNat 0 = (table.lookup tokenId).getD 0 := Int64.sub_zero _
    dsimp only
    split
    · rw [AList.lookup_erase_ne (Ne.symm same), kept]
    · rw [AList.lookup_insert_ne (Ne.symm same), kept]

theorem getD_addTokens : ((tokens.foldl BalanceInfo.addToken table).lookup tokenId).getD 0 =
    (table.lookup tokenId).getD 0 + Int64.ofNat (amountOf tokenId tokens) := by
  induction tokens generalizing table with
  | nil => exact (Int64.add_zero _).symm
  | cons token rest ih =>
      rw [List.foldl_cons, ih, getD_addToken, amountOf_cons, Int64.ofNat_add, Int64.add_assoc]

theorem getD_subtractTokens : ((tokens.foldl BalanceInfo.subtractToken table).lookup tokenId).getD 0 =
    (table.lookup tokenId).getD 0 - Int64.ofNat (amountOf tokenId tokens) := by
  induction tokens generalizing table with
  | nil => exact (Int64.sub_zero _).symm
  | cons token rest ih =>
      rw [List.foldl_cons, ih, getD_subtractToken, amountOf_cons, Int64.ofNat_add]
      exact sub_sub _ _ _

end Tables

/-! ### One balance -/

section Counted
variable {live : Table Digest32 IndexedErgoBox} {held : IndexedErgoBox → Nat} {shown : Int64}
variable {id : Digest32} {ieb : IndexedErgoBox}

/-- The balance that is shown is what the live boxes hold. -/
structure Counted (live : Table Digest32 IndexedErgoBox) (held : IndexedErgoBox → Nat) (shown : Int64) : Prop where
  fits : total live held < 2 ^ 63
  shows : shown = Int64.ofNat (total live held)

theorem Counted.toInt_eq (counted : Counted live held shown) : shown.toInt = total live held := by
  rw [counted.shows, Int64.toInt_ofNat_of_lt counted.fits]

theorem total_erase (there : live.lookup id = some ieb) : total live held = held ieb + total (live.erase id) held :=
  Entries.sum_erase there

/-- A live box that is worth nothing counts for nothing. -/
theorem total_erase_of_worthless (worthless : ∀ old ∈ live.lookup id, held old = 0) :
    total (live.erase id) held = total live held := by
  cases there : live.lookup id with
  | none => rw [erase_of_unlisted there]
  | some old => rw [total_erase there, worthless old there, Nat.zero_add]

theorem total_insert : total (live.insert id ieb) held = held ieb + total (live.erase id) held := by
  have again : live.insert id ieb = (live.erase id).insert id ieb := by
    apply AList.ext
    change ⟨id, ieb⟩ :: live.entries.kerase id = ⟨id, ieb⟩ :: (live.entries.kerase id).kerase id
    rw [List.kerase_of_notMem_keys (List.notMem_keys_kerase id live.nodupKeys)]
  rw [again]
  exact Entries.sum_insert fun member => (AList.mem_erase.mp member).1 rfl

theorem Counted.insert (counted : Counted live held shown) (worthless : ∀ old ∈ live.lookup id, held old = 0)
    (small : total live held + held ieb < 2 ^ 63) :
    Counted (live.insert id ieb) held (shown + Int64.ofNat (held ieb)) := by
  have grown : total (live.insert id ieb) held = total live held + held ieb := by
    rw [total_insert, total_erase_of_worthless worthless, Nat.add_comm]
  refine ⟨?_, ?_⟩
  · rw [grown]
    exact small
  · rw [grown, counted.shows, Int64.ofNat_add]

theorem Counted.erase (counted : Counted live held shown) (there : live.lookup id = some ieb) :
    Counted (live.erase id) held (shown - Int64.ofNat (held ieb)) := by
  have split : total live held = held ieb + total (live.erase id) held := total_erase there
  refine ⟨?_, ?_⟩
  · have fits := counted.fits
    omega
  · rw [counted.shows, split, Int64.ofNat_add, add_sub_cancel_left]

theorem Counted.again (counted : Counted live held shown) (unlisted : live.lookup id = none)
    (worthless : held ieb = 0) : Counted (live.erase id) held (shown - Int64.ofNat (held ieb)) := by
  rw [erase_of_unlisted unlisted, worthless]
  have kept : shown - Int64.ofNat 0 = shown := Int64.sub_zero _
  rw [kept]
  exact counted

theorem eq_zero_of_ofNat {n : Nat} (small : n < 2 ^ 64) (zero : Int64.ofNat n = 0) : n = 0 := by
  have same := congrArg (fun value : Int64 => value.toUInt64.toNat) zero
  change n % 2 ^ 64 = 0 at same
  rwa [Nat.mod_eq_of_lt small] at same

theorem Counted.of_insert (counted : Counted live held shown) (small : ∀ old, live.lookup id = some old → held old < 2 ^ 64)
    (exact : (shown + Int64.ofNat (held ieb)).toInt = total (live.insert id ieb) held) :
    (∀ old ∈ live.lookup id, held old = 0) ∧ total live held + held ieb < 2 ^ 63 := by
  have bound : total (live.insert id ieb) held < 2 ^ 63 := by
    have below := Int64.toInt_lt (shown + Int64.ofNat (held ieb))
    rw [exact] at below
    omega
  have worthless : ∀ old ∈ live.lookup id, held old = 0 := by
    intro old there
    have equal : shown + Int64.ofNat (held ieb) = Int64.ofNat (total (live.insert id ieb) held) := by
      apply Int64.toInt_inj.mp
      rw [exact, Int64.toInt_ofNat_of_lt bound]
    rw [counted.shows, total_insert, total_erase there, ← Int64.ofNat_add, Nat.add_assoc,
      Nat.add_comm (total _ _), Int64.ofNat_add] at equal
    exact eq_zero_of_ofNat (small old there) (right_eq_add.mp equal.symm)
  refine ⟨worthless, ?_⟩
  rw [total_insert, total_erase_of_worthless worthless] at bound
  omega

/-- A balance that is right although nothing left the live boxes has lost nothing. -/
theorem Counted.of_again (counted : Counted live held shown) (unlisted : live.lookup id = none)
    (small : held ieb < 2 ^ 64)
    (exact : (shown - Int64.ofNat (held ieb)).toInt = total (live.erase id) held) : held ieb = 0 := by
  rw [erase_of_unlisted unlisted, ← counted.toInt_eq] at exact
  exact eq_zero_of_ofNat small (sub_eq_self.mp (Int64.toInt_inj.mp exact))

end Counted

/-! ### Runs -/

section Run
variable {sr : SigmaRust} {run next : IndexRun} {action : IndexRun.Action}

def nanoErgsAt (indexer : ExtraIndexer) (tree : Digest32) : Int64 :=
  (addressAt indexer.addresses tree).balance.nanoErgs

def tokenAt (indexer : ExtraIndexer) (tree tokenId : Digest32) : Int64 :=
  ((addressAt indexer.addresses tree).balance.tokens.lookup tokenId).getD 0

/-- Every balance is counted, and no box holds more of a token than can be counted. -/
structure Summed (sr : SigmaRust) (run : IndexRun) : Prop extends Buffered sr run where
  nanoErgs : ∀ tree, Counted run.live (valueAt tree) (nanoErgsAt run.indexer tree)
  token : ∀ tree tokenId, Counted run.live (amountAt tree tokenId) (tokenAt run.indexer tree tokenId)
  modest : ∀ id ieb, run.indexer.boxes.lookup id = some ieb → ∀ tokenId, amountOf tokenId ieb.tokens < 2 ^ 63

theorem nanoErgsAt_indexed (output : Output) (tree : Digest32) (globalIndex : UInt64) :
    nanoErgsAt (indexed sr run.indexer output) tree =
      nanoErgsAt run.indexer tree + Int64.ofNat (valueAt tree (output.ieb sr globalIndex)) := by
  rw [nanoErgsAt, addressAt_indexed, valueAt]
  by_cases same : output.tree sr = tree
  · have mine : (output.ieb sr globalIndex).ergoTreeHash = tree := same
    rw [if_pos same, if_pos mine, ← toInt64_eq_ofNat]
    rfl
  · have other : ¬ (output.ieb sr globalIndex).ergoTreeHash = tree := same
    rw [if_neg same, if_neg other]
    exact (Int64.add_zero _).symm

theorem tokenAt_indexed (output : Output) (tree tokenId : Digest32) (globalIndex : UInt64) :
    tokenAt (indexed sr run.indexer output) tree tokenId =
      tokenAt run.indexer tree tokenId + Int64.ofNat (amountAt tree tokenId (output.ieb sr globalIndex)) := by
  rw [tokenAt, addressAt_indexed, amountAt]
  by_cases same : output.tree sr = tree
  · have mine : (output.ieb sr globalIndex).ergoTreeHash = tree := same
    rw [if_pos same, if_pos mine]
    exact getD_addTokens
  · have other : ¬ (output.ieb sr globalIndex).ergoTreeHash = tree := same
    rw [if_neg same, if_neg other]
    exact (Int64.add_zero _).symm

variable {boxId txId : Digest32} {height : UInt32} {ieb : IndexedErgoBox}

theorem nanoErgsAt_spent (tree : Digest32) : nanoErgsAt (spent sr run.indexer boxId ieb txId height) tree =
    nanoErgsAt run.indexer tree - Int64.ofNat (valueAt tree ieb) := by
  rw [nanoErgsAt, addressAt_spent, valueAt]
  by_cases same : ieb.ergoTreeHash = tree
  · rw [if_pos same, if_pos same, ← toInt64_eq_ofNat]
    rfl
  · rw [if_neg same, if_neg same]
    exact (Int64.sub_zero _).symm

theorem tokenAt_spent (tree tokenId : Digest32) :
    tokenAt (spent sr run.indexer boxId ieb txId height) tree tokenId =
      tokenAt run.indexer tree tokenId - Int64.ofNat (amountAt tree tokenId ieb) := by
  rw [tokenAt, addressAt_spent, amountAt]
  by_cases same : ieb.ergoTreeHash = tree
  · rw [if_pos same, if_pos same]
    exact getD_subtractTokens
  · rw [if_neg same, if_neg same]
    exact (Int64.sub_zero _).symm

theorem summed_start (sr : SigmaRust) : Summed sr .start where
  toBuffered := buffered_start sr
  nanoErgs _ := ⟨Nat.two_pow_pos 63, rfl⟩
  token _ _ := ⟨Nat.two_pow_pos 63, rfl⟩
  modest _ _ found := by simp [IndexRun.start, ExtraIndexer.new] at found

theorem Summed.balancesExact (summed : Summed sr run) : BalancesExact run := by
  intro tree
  refine ⟨_, summed.exec_getAddress tree, ?_, fun tokenId => ?_⟩
  · rw [← (summed.nanoErgs tree).toInt_eq, nanoErgsAt, ← getD_map_lookup IndexedErgoAddress.balance]
    rfl
  · rw [← (summed.token tree tokenId).toInt_eq, tokenAt, ← getD_map_lookup IndexedErgoAddress.balance]
    rfl

theorem BalancesExact.toInt_nanoErgsAt (exact : BalancesExact run) (buffered : Buffered sr run) (tree : Digest32) :
    (nanoErgsAt run.indexer tree).toInt = total run.live (valueAt tree) := by
  obtain ⟨found, looked, value, -⟩ := exact tree
  rw [buffered.exec_getAddress] at looked
  cases looked
  rw [← value, nanoErgsAt, ← getD_map_lookup IndexedErgoAddress.balance]
  rfl

theorem BalancesExact.toInt_tokenAt (exact : BalancesExact run) (buffered : Buffered sr run) (tree tokenId : Digest32) :
    (tokenAt run.indexer tree tokenId).toInt = total run.live (amountAt tree tokenId) := by
  obtain ⟨found, looked, -, amount⟩ := exact tree
  rw [buffered.exec_getAddress] at looked
  cases looked
  rw [← amount, tokenAt, ← getD_map_lookup IndexedErgoAddress.balance]
  rfl

/-! ### Boxes that are worth nothing -/

theorem Worthless.valueAt (worthless : Worthless ieb) (tree : Digest32) : valueAt tree ieb = 0 := by
  unfold Indexer.valueAt
  rw [worthless.1]
  simp

theorem amountOf_eq_zero {tokens : List (Digest32 × UInt64)} {tokenId : Digest32} :
    amountOf tokenId tokens = 0 ↔ ∀ token ∈ tokens, token.1 = tokenId → token.2 = 0 := by
  induction tokens with
  | nil => simp [amountOf]
  | cons token rest ih =>
      rw [amountOf_cons, Nat.add_eq_zero_iff, ih, List.forall_mem_cons]
      apply and_congr_left'
      by_cases same : token.1 = tokenId
      · simp [same, ← UInt64.toNat_inj]
      · simp [same]

theorem Worthless.amountAt (worthless : Worthless ieb) (tree tokenId : Digest32) : amountAt tree tokenId ieb = 0 := by
  unfold Indexer.amountAt
  rw [amountOf_eq_zero.mpr fun token member _ => worthless.2 token member]
  simp

theorem worthless_of_zero (value : Indexer.valueAt ieb.ergoTreeHash ieb = 0)
    (amount : ∀ tokenId, Indexer.amountAt ieb.ergoTreeHash tokenId ieb = 0) : Worthless ieb := by
  rw [Indexer.valueAt, if_pos rfl] at value
  refine ⟨UInt64.toNat_inj.mp value, fun token member => ?_⟩
  have none := amount token.1
  rw [Indexer.amountAt, if_pos rfl] at none
  exact amountOf_eq_zero.mp none token member rfl

theorem valueAt_lt (tree : Digest32) : Indexer.valueAt tree ieb < 2 ^ 64 := by
  unfold Indexer.valueAt
  split
  · exact ieb.value.toNat_lt
  · exact Nat.two_pow_pos 64

theorem amountAt_lt (modest : ∀ tokenId, amountOf tokenId ieb.tokens < 2 ^ 63) (tree tokenId : Digest32) :
    Indexer.amountAt tree tokenId ieb < 2 ^ 64 := by
  unfold Indexer.amountAt
  split
  · have small := modest tokenId
    omega
  · exact Nat.two_pow_pos 64

/-! ### Steps -/

theorem Summed.amount_lt (summed : Summed sr run) {output : Output}
    (small : ∀ token ∈ output.tokens,
      total run.live (Indexer.amountAt (output.tree sr) token.1) + amountOf token.1 output.tokens < 2 ^ 63)
    (tokenId : Digest32) :
    total run.live (Indexer.amountAt (output.tree sr) tokenId) + amountOf tokenId output.tokens < 2 ^ 63 := by
  by_cases listed : ∃ token ∈ output.tokens, token.1 = tokenId
  · obtain ⟨token, member, rfl⟩ := listed
    exact small token member
  · have none : amountOf tokenId output.tokens = 0 :=
      amountOf_eq_zero.mpr fun token member same => absurd ⟨token, member, same⟩ listed
    rw [none]
    exact (summed.token _ tokenId).fits

theorem Summed.indexOutput (summed : Summed sr run) {output : Output}
    (once : CountedOnce sr run (.indexOutput output)) : Summed sr ⟨indexed sr run.indexer output,
      run.live.insert output.boxId (output.ieb sr run.indexer.state.globalBoxIndex)⟩ := by
  obtain ⟨worthless, value, amount⟩ := once
  refine ⟨summed.toBuffered.indexOutput output, fun tree => ?_, fun tree tokenId => ?_, ?_⟩
  · change Counted _ _ (nanoErgsAt (indexed sr run.indexer output) tree)
    rw [nanoErgsAt_indexed]
    apply (summed.nanoErgs tree).insert fun old there => (worthless old there).valueAt tree
    by_cases same : output.tree sr = tree
    · subst same
      exact (congrArg (_ + · < _) (if_pos rfl)).mpr value
    · exact (congrArg (_ + · < _) (if_neg same)).mpr (summed.nanoErgs tree).fits
  · change Counted _ _ (tokenAt (indexed sr run.indexer output) tree tokenId)
    rw [tokenAt_indexed]
    apply (summed.token tree tokenId).insert fun old there => (worthless old there).amountAt tree tokenId
    by_cases same : output.tree sr = tree
    · subst same
      exact (congrArg (_ + · < _) (if_pos rfl)).mpr (summed.amount_lt amount tokenId)
    · exact (congrArg (_ + · < _) (if_neg same)).mpr (summed.token tree tokenId).fits
  · apply Entries.forall_lookup_insert (fun tokenId => ?_) summed.modest
    exact Nat.lt_of_le_of_lt (Nat.le_add_left _ _) (summed.amount_lt amount tokenId)

theorem Summed.spendBox (summed : Summed sr run) (found : run.indexer.boxes.lookup boxId = some ieb)
    (once : ieb.isSpent = true → Worthless ieb) :
    Summed sr ⟨spent sr run.indexer boxId ieb txId height, run.live.erase boxId⟩ := by
  have counts : ∀ {held : IndexedErgoBox → Nat} {shown : Int64}, Counted run.live held shown →
      (Worthless ieb → held ieb = 0) → Counted (run.live.erase boxId) held (shown - Int64.ofNat (held ieb)) := by
    intro held shown counted zero
    cases marked : ieb.isSpent with
    | false => exact counted.erase ((summed.live boxId ieb).mpr ⟨found, marked⟩)
    | true =>
        apply counted.again (summed.unlisted fun other there => ?_) (zero (once marked))
        rw [found] at there
        cases there
        exact marked
  refine ⟨summed.toBuffered.spendBox found txId height, fun tree => ?_, fun tree tokenId => ?_, ?_⟩
  · change Counted _ _ (nanoErgsAt (spent sr run.indexer boxId ieb txId height) tree)
    rw [nanoErgsAt_spent]
    exact counts (summed.nanoErgs tree) fun worthless => worthless.valueAt tree
  · change Counted _ _ (tokenAt (spent sr run.indexer boxId ieb txId height) tree tokenId)
    rw [tokenAt_spent]
    exact counts (summed.token tree tokenId) fun worthless => worthless.amountAt tree tokenId
  · exact Entries.forall_lookup_insert (summed.modest boxId ieb found) summed.modest

theorem Summed.spendBox_of_none (summed : Summed sr run) (missing : run.indexer.boxes.lookup boxId = none) :
    Summed sr ⟨run.indexer, run.live.erase boxId⟩ := by
  have same : run.live.erase boxId = run.live := erase_of_unlisted (summed.unlisted fun ieb there => by
    rw [missing] at there
    cases there)
  rw [same]
  exact summed

theorem summed_step (summed : Summed sr run) (once : CountedOnce sr run action)
    (taken : run.step sr action = some next) : Summed sr next := by
  cases action with
  | indexOutput output =>
      rw [summed.step_indexOutput] at taken
      cases taken
      exact summed.indexOutput once
  | spendBox boxId txId height =>
      cases there : run.indexer.boxes.lookup boxId with
      | none =>
          rw [summed.step_spendBox_of_none there] at taken
          cases taken
          exact summed.spendBox_of_none there
      | some ieb =>
          rw [summed.step_spendBox there] at taken
          cases taken
          exact summed.spendBox there (once ieb there)

/-! A step that leaves exact balances has counted every box once. -/

theorem countedOnce_of_exact (summed : Summed sr run) (taken : run.step sr action = some next)
    (exact : BalancesExact next) : CountedOnce sr run action := by
  have buffered := buffered_step summed.toBuffered taken
  cases action with
  | indexOutput output =>
      rw [summed.step_indexOutput] at taken
      cases taken
      have value := fun tree => (summed.nanoErgs tree).of_insert (fun old _ => valueAt_lt tree) (by
        rw [← nanoErgsAt_indexed]
        exact exact.toInt_nanoErgsAt buffered tree)
      have amount := fun tree tokenId => (summed.token tree tokenId).of_insert
        (fun old there => amountAt_lt (summed.modest _ old ((summed.live _ old).mp there).1) tree tokenId) (by
          rw [← tokenAt_indexed]
          exact exact.toInt_tokenAt buffered tree tokenId)
      refine ⟨fun old there => ?_, ?_, fun token member => ?_⟩
      · exact worthless_of_zero ((value _).1 old there) fun tokenId => (amount _ tokenId).1 old there
      · exact (congrArg (_ + · < _) (if_pos rfl)).mp (value (output.tree sr)).2
      · exact (congrArg (_ + · < _) (if_pos rfl)).mp (amount (output.tree sr) token.1).2
  | spendBox boxId txId height =>
      intro ieb found marked
      rw [summed.step_spendBox found] at taken
      cases taken
      have unlisted : run.live.lookup boxId = none := summed.unlisted fun other there => by
        rw [found] at there
        cases there
        exact marked
      refine worthless_of_zero ?_ fun tokenId => ?_
      · apply (summed.nanoErgs _).of_again unlisted (valueAt_lt _)
        rw [← nanoErgsAt_spent]
        exact exact.toInt_nanoErgsAt buffered _
      · apply (summed.token _ tokenId).of_again unlisted (amountAt_lt (summed.modest boxId ieb found) _ tokenId)
        rw [← tokenAt_spent]
        exact exact.toInt_tokenAt buffered _ tokenId

end Run

/-- The balances are exact throughout a run exactly if every new box takes no place of a live box that is worth
something and keeps the sums below 2^63, and no box that is spent is spent again, unless it is worthless. Every
run goes to its end. -/
theorem balancesExact_iff (sr : SigmaRust) (actions : List IndexRun.Action) :
    (∃ last, run (IndexRun.step sr) .start actions = some last) ∧
      (Always (IndexRun.step sr) BalancesExact .start actions ↔
        Along (IndexRun.step sr) (CountedOnce sr) .start actions) := by
  obtain ⟨last, ran⟩ := exists_run_of_buffered (buffered_start sr) actions
  exact ⟨⟨last, ran⟩, always_iff_along summed_step countedOnce_of_exact Summed.balancesExact (summed_start sr) ran⟩

def spentAgain : List IndexRun.Action :=
  [.indexOutput (sampleOutput 1 5), .spendBox (.filled 1) (.filled 9) 10, .spendBox (.filled 1) (.filled 9) 10]

theorem spentAgain_not_balancesExact :
    ¬ Always (IndexRun.step sampleHash) BalancesExact .start spentAgain := by
  intro always
  have kept : (run (IndexRun.step sampleHash) .start spentAgain).map (fun last =>
      ((nanoErgsAt last.indexer (.filled 1)).toInt, last.live.entries)) = some (-5, []) := by
    decide +kernel
  obtain ⟨last, ran, kept⟩ := Option.map_eq_some_iff.mp kept
  obtain ⟨taken, none⟩ := Prod.mk.inj kept
  have balance := (always last ⟨spentAgain, List.prefix_rfl, ran⟩).toInt_nanoErgsAt (buffered_of_run ran) (.filled 1)
  rw [taken, total, none] at balance
  cases balance
end ErgoNode.Proof.Indexer
