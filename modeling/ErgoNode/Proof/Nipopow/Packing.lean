import ErgoNode.Consensus.Nipopow
import ErgoNode.Lib.Except
import ErgoNode.Lib.Keyed
import ErgoNode.Lib.RunLength

/-!
# Packed interlinks

The packed fields are the runs of the interlinks under numbers of one byte. They can be told apart as long
as no number is given twice.
-/

namespace ErgoNode.Proof.Nipopow
open Lib Lib.Keyed Lib.RunLength

section Packing
variable {links : List BlockId} {fields others : List (Bytes × Bytes)} {runs : List (Run BlockId)} {idx : UInt8}

def fieldKey (field : Bytes × Bytes) : Nat := (field.1.getD 1 0).toNat

def fieldCount (field : Bytes × Bytes) : Nat := (field.2.headD 0).toNat

def fieldLink (field : Bytes × Bytes) : BlockId := blockIdOf ((field.2.drop 1).take 32)

/-! ### The packed runs -/

def packRun (idx : UInt8) (run : Run BlockId) : Bytes × Bytes :=
  ([interlinksVectorPrefix, idx], UInt8.ofNat run.count :: run.value.bytes)

def packRuns (idx : UInt8) : List (Run BlockId) → List (Bytes × Bytes)
  | [] => []
  | run :: rest => packRun idx run :: packRuns (idx + 1) rest

theorem packFrom_eq (idx : UInt8) (links : List BlockId) : packFrom idx links = packRuns idx (chunks 254 links) := by
  fun_induction packFrom idx links with
  | case1 idx =>
      rw [chunks]
      rfl
  | case2 idx link rest all count ih =>
      have same : count = min (rest.takeWhile (· == link)).length 254 + 1 := by
        simp only [count, all, List.takeWhile_cons, beq_self_eq_true, if_true, List.length_cons]
        omega
      rw [same, List.drop_succ_cons] at ih
      rw [same, chunks, packRuns, List.drop_succ_cons, ih]
      rfl

def Short (runs : List (Run BlockId)) : Prop := ∀ run ∈ runs, run.count ≤ 255

theorem fieldCount_packRun {run : Run BlockId} (short : run.count ≤ 255) : fieldCount (packRun idx run) = run.count :=
  UInt8.toNat_ofNat_of_lt (Nat.lt_succ_of_le short)

theorem fieldLink_packRun (run : Run BlockId) : fieldLink (packRun idx run) = run.value := by
  have whole : run.value.bytes.take 32 = run.value.bytes := List.take_of_length_le run.value.size.le
  rw [fieldLink, packRun, List.drop_one, List.tail_cons, whole, blockIdOf, dif_pos run.value.size]

theorem isInterlinkField_packRun (idx : UInt8) (run : Run BlockId) : isInterlinkField (packRun idx run) := by
  simp [isInterlinkField, packRun, run.value.size]

theorem exists_of_mem_packRuns {field : Bytes × Bytes} (member : field ∈ packRuns idx runs) :
    ∃ i, ∃ run ∈ runs, field = packRun i run := by
  induction runs generalizing idx with
  | nil => cases member
  | cons run rest ih =>
      rcases List.mem_cons.mp member with rfl | later
      · exact ⟨idx, run, List.mem_cons_self, rfl⟩
      · obtain ⟨i, other, there, shape⟩ := ih later
        exact ⟨i, other, List.mem_cons_of_mem run there, shape⟩

theorem length_packRuns (idx : UInt8) (runs : List (Run BlockId)) : (packRuns idx runs).length = runs.length := by
  induction runs generalizing idx with
  | nil => rfl
  | cons run rest ih => rw [packRuns, List.length_cons, List.length_cons, ih]

theorem expand_packRuns (idx : UInt8) (short : Short runs) :
    expand fieldCount fieldLink (packRuns idx runs) = runs.flatMap Run.expand := by
  induction runs generalizing idx with
  | nil => rfl
  | cons run rest ih =>
      have rest_eq := ih (idx + 1) fun other member => short other (List.mem_cons_of_mem run member)
      rw [expand] at rest_eq ⊢
      rw [packRuns, List.flatMap_cons, List.flatMap_cons, rest_eq, fieldCount_packRun (short run List.mem_cons_self),
        fieldLink_packRun, Run.expand]

theorem fieldKey_of_getElem? {i : Nat} {field : Bytes × Bytes} (there : (packRuns idx runs)[i]? = some field) :
    fieldKey field = (idx.toNat + i) % 256 := by
  induction runs generalizing idx i with
  | nil => cases there
  | cons run rest ih =>
      cases i with
      | zero =>
          cases there
          exact (Nat.mod_eq_of_lt idx.toNat_lt).symm
      | succ i =>
          rw [ih there, UInt8.toNat_add]
          change ((idx.toNat + 1) % 256 + i) % 256 = (idx.toNat + (i + 1)) % 256
          omega

theorem numbered_packRuns (short : Short runs) : Numbered fieldKey fieldCount 256 (packRuns 0 runs) where
  key_eq i field there := by
    rw [fieldKey_of_getElem? there, UInt8.toNat_zero, Nat.zero_add]
  positive field member := by
    obtain ⟨i, run, there, rfl⟩ := exists_of_mem_packRuns member
    rw [fieldCount_packRun (short run there)]
    exact run.positive

/-! ### Unpacking -/

theorem foldlM_addLinks (positive : ∀ field ∈ fields, 0 < fieldCount field) (result : List BlockId) :
    fields.foldlM addLinks result = .ok (result ++ expand fieldCount fieldLink fields) := by
  induction fields generalizing result with
  | nil =>
      rw [expand, List.flatMap_nil, List.append_nil]
      rfl
  | cons field rest ih =>
      have added : addLinks result field = .ok (result ++ List.replicate (fieldCount field) (fieldLink field)) :=
        if_neg (positive field List.mem_cons_self).ne'
      have others := fun other member => positive other (List.mem_cons_of_mem field member)
      rw [List.foldlM_cons, added, Lib.Except.ok_bind, ih others, List.append_assoc]
      rfl

theorem unpackInterlinks_eq (positive : ∀ field ∈ fields.filter isInterlinkField, 0 < fieldCount field) :
    unpackInterlinks fields = .ok (expand fieldCount fieldLink (byKey fieldKey (fields.filter isInterlinkField))) := by
  have order : (fun a b : Bytes × Bytes => decide (a.1.getD 1 0 ≤ b.1.getD 1 0)) = keyLe fieldKey := by
    funext a b
    exact decide_eq_decide.mpr UInt8.le_iff_toNat_le
  have sorted : ∀ field ∈ byKey fieldKey (fields.filter isInterlinkField), 0 < fieldCount field :=
    fun field member => positive field ((byKey_perm _ _).subset member)
  unfold unpackInterlinks
  rw [order]
  exact foldlM_addLinks sorted []

theorem filter_packed (other : ∀ field ∈ others, field.1.head? ≠ some interlinksVectorPrefix)
    (perm : fields.Perm (packRuns idx runs ++ others)) : (fields.filter isInterlinkField).Perm (packRuns idx runs) := by
  have kept : (packRuns idx runs).filter isInterlinkField = packRuns idx runs := by
    refine List.filter_eq_self.mpr fun field member => ?_
    obtain ⟨i, run, -, rfl⟩ := exists_of_mem_packRuns member
    exact isInterlinkField_packRun i run
  have dropped : others.filter isInterlinkField = [] := by
    refine List.filter_eq_nil_iff.mpr fun field member => ?_
    simp [isInterlinkField, other field member]
  have filtered := perm.filter isInterlinkField
  rwa [List.filter_append, kept, dropped, List.append_nil] at filtered

theorem unpack_packRuns_iff (short : Short runs) :
    (∀ others : List (Bytes × Bytes), (∀ field ∈ others, field.1.head? ≠ some interlinksVectorPrefix) →
        ∀ fields : List (Bytes × Bytes), fields.Perm (packRuns 0 runs ++ others) →
          unpackInterlinks fields = .ok (runs.flatMap Run.expand)) ↔
      runs.length ≤ 256 ∨ ∃ id, ∀ link ∈ runs.flatMap Run.expand, link = id := by
  have numbered := numbered_packRuns short
  have read {others fields : List (Bytes × Bytes)}
      (other : ∀ field ∈ others, field.1.head? ≠ some interlinksVectorPrefix)
      (perm : fields.Perm (packRuns 0 runs ++ others)) : unpackInterlinks fields =
        .ok (expand fieldCount fieldLink (byKey fieldKey (fields.filter isInterlinkField))) :=
    unpackInterlinks_eq fun field member => numbered.positive field ((filter_packed other perm).subset member)
  rw [← length_packRuns 0 runs, ← expand_packRuns 0 short, ← roundTrips_iff numbered (by decide)]
  constructor
  · intro returns fields perm
    have none : ∀ field ∈ ([] : List (Bytes × Bytes)), field.1.head? ≠ some interlinksVectorPrefix := by simp
    have sent : fields.Perm (packRuns 0 runs ++ []) := by rwa [List.append_nil]
    have all : fields.filter isInterlinkField = fields :=
      List.filter_sublist.eq_of_length ((filter_packed none sent).trans perm.symm).length_eq
    have same := (read none sent).symm.trans (returns [] none fields sent)
    rw [all] at same
    rw [Except.ok.inj same, expand_packRuns 0 short]
  · intro returns others other fields perm
    rw [read other perm, returns _ (filter_packed other perm)]

theorem short_chunks (links : List BlockId) : Short (chunks 254 links) := fun _ member => count_le_of_mem member

end Packing

/-- An entry holds a run of up to 255 links. -/
theorem unpack_pack_iff (links : List BlockId) :
    (∀ others : List (Bytes × Bytes), (∀ field ∈ others, field.1.head? ≠ some interlinksVectorPrefix) →
        ∀ fields : List (Bytes × Bytes), fields.Perm (packInterlinks links ++ others) →
          unpackInterlinks fields = .ok links) ↔
      ((links.splitBy (· == ·)).map fun run => (run.length + 254) / 255).sum ≤ 256 ∨
        ∃ id, ∀ link ∈ links, link = id := by
  have runs := unpack_packRuns_iff (short_chunks links)
  rwa [expand_chunks, length_chunks, ← packFrom_eq] at runs

def alternatingLinks : List BlockId := (List.range 257).map fun i => .filled (UInt8.ofNat (i % 2))

theorem alternatingLinks_lost :
    ¬ ∀ others : List (Bytes × Bytes), (∀ field ∈ others, field.1.head? ≠ some interlinksVectorPrefix) →
      ∀ fields : List (Bytes × Bytes), fields.Perm (packInterlinks alternatingLinks ++ others) →
        unpackInterlinks fields = .ok alternatingLinks := by
  intro returns
  have runs := unpack_packRuns_iff (short_chunks alternatingLinks)
  rw [expand_chunks, length_chunks, ← packFrom_eq] at runs
  rcases runs.mp returns with few | ⟨id, same⟩
  · revert few
    decide +kernel
  · have zero := same (.filled 0) (by decide +kernel)
    have one := same (.filled 1) (by decide +kernel)
    exact absurd (zero.trans one.symm) (by decide)

end ErgoNode.Proof.Nipopow
