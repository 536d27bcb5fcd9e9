import ErgoNode.Consensus.Sections
import ErgoNode.Lib.Except
import ErgoNode.Proof.Validation.Together

/-!
# Which sections are parsed without a panic

The parsers trust the number of entries that a section announces, and the one of the transactions moves
on by the bytes that a transaction has when it is written again.
-/

namespace ErgoNode.Proof.Validation
open Lib

/-! ### Fields of the extension -/

section Fields
variable {c d : Cursor} {justified : Room → Prop}

def InMemory (c : Cursor) : Prop := c.pos + c.rest.length ≤ isizeMax

def parseField : Bytes → Except String (ExtensionField × Nat)
  | key₀ :: key₁ :: valueLen :: rest =>
      if valueLen.toNat > rest.length then .error "Extension data truncated at value"
      else .ok (⟨(key₀, key₁), rest.take valueLen.toNat⟩, 3 + valueLen.toNat)
  | [_, _] => .error "Extension data truncated at value length"
  | _ => .error "Extension data truncated at key"

theorem parseFields_succ (count : Nat) (bytes : Bytes) : Extension.parseFields (count + 1) bytes = do
    let (field, used) ← parseField bytes
    let fields ← Extension.parseFields count (bytes.drop used)
    return field :: fields := by
  rcases bytes with _ | ⟨key₀, _ | ⟨key₁, _ | ⟨valueLen, rest⟩⟩⟩
  · rfl
  · rfl
  · rfl
  · rw [Extension.parseFields, parseField]
    split
    · rfl
    · rw [Nat.add_comm]
      rfl

theorem exec_readField (inMemory : InMemory c) :
    ExtensionField.read.exec c = (Read.ofParser parseField).exec c := by
  obtain ⟨pos, rest⟩ := c
  have low : pos < 2 ^ 63 := by
    have whole : pos + rest.length ≤ isizeMax := inMemory
    unfold isizeMax at whole
    omega
  have fits (n : Nat) (short : n < 260) : pos + n < 2 ^ 64 := by omega
  rcases rest with _ | ⟨key₀, _ | ⟨key₁, _ | ⟨valueLen, rest⟩⟩⟩
  · exact Read.exec_bind_of_ok (Read.span_missed (fits 2 (by decide)) (by simp))
  · exact Read.exec_bind_of_ok (Read.span_missed (fits 2 (by decide)) (by simp))
  · exact Read.exec_bind_of_ok (Read.span_found (fits 2 (by decide)) (by simp))
  · have key : (Read.span (2 ^ 64) 2 : Read String _).exec ⟨pos, key₀ :: key₁ :: valueLen :: rest⟩ =
        ⟨.ok (some [key₀, key₁], ⟨pos + 2, valueLen :: rest⟩), []⟩ :=
      Read.span_found (fits 2 (by decide)) (by simp)
    have near := fits (3 + valueLen.toNat) (by have := valueLen.toNat_lt; omega)
    rw [← Nat.add_assoc] at near
    rw [ExtensionField.read, Read.exec_bind_of_ok key]
    dsimp only
    rw [Read.exec_bind_of_ok (Read.exec_look _), if_neg (List.cons_ne_nil _ _),
      Read.exec_bind_of_ok (Read.exec_byte rfl)]
    by_cases enough : valueLen.toNat ≤ rest.length
    · have parsed : parseField (key₀ :: key₁ :: valueLen :: rest) =
          .ok (⟨(key₀, key₁), rest.take valueLen.toNat⟩, 3 + valueLen.toNat) := if_neg (Nat.not_lt_of_le enough)
      have behind : (Cursor.mk pos (key₀ :: key₁ :: valueLen :: rest)).skip (3 + valueLen.toNat) =
          ⟨pos + 3 + valueLen.toNat, rest.drop valueLen.toNat⟩ := by
        rw [Cursor.skip, ← Nat.add_assoc, Nat.add_comm 3]
        rfl
      rw [Read.exec_bind_of_ok (Read.span_found near enough), Read.exec_ofParser_ok parsed, behind]
      rfl
    · have failed : parseField (key₀ :: key₁ :: valueLen :: rest) = .error "Extension data truncated at value" :=
        if_pos (Nat.lt_of_not_le enough)
      rw [Read.exec_bind_of_ok (Read.span_missed near enough), Read.exec_ofParser_error failed]
      rfl

theorem used_le_of_parseField {bytes : Bytes} {field : ExtensionField} {used : Nat}
    (parsed : parseField bytes = .ok (field, used)) : used ≤ bytes.length := by
  rcases bytes with _ | ⟨key₀, _ | ⟨key₁, _ | ⟨valueLen, rest⟩⟩⟩
  · cases parsed
  · cases parsed
  · cases parsed
  · rw [parseField] at parsed
    split at parsed
    · cases parsed
    · next enough =>
        cases parsed
        simp only [List.length_cons]
        omega

theorem InMemory.skip {n : Nat} (inMemory : InMemory c) (within : n ≤ c.rest.length) : InMemory (c.skip n) := by
  change c.pos + n + (c.rest.drop n).length ≤ isizeMax
  unfold InMemory at inMemory
  rw [List.length_drop]
  omega

theorem InMemory.field {field : ExtensionField} (inMemory : InMemory c) (given : ExtensionField.read.Gives c field d) :
    ∃ used, parseField c.rest = .ok (field, used) ∧ c.skip used = d ∧ InMemory d := by
  rw [Read.Gives, exec_readField inMemory] at given
  obtain ⟨used, parsed, rfl⟩ := Read.gives_ofParser.mp given
  exact ⟨used, parsed, rfl, inMemory.skip (used_le_of_parseField parsed)⟩

theorem safe_readFields (inMemory : InMemory c) (count : Nat) :
    (Read.repeated ExtensionField.read count).Safe justified c := by
  refine Read.safe_repeated_along (fun c inMemory => ?_) (fun c field d inMemory given => ?_) inMemory count
  · exact (Read.safe_congr (exec_readField inMemory)).mpr Read.safe_ofParser
  · exact (inMemory.field given).choose_spec.2.2

theorem agrees_readFields (inMemory : InMemory c) (count : Nat) :
    (Read.repeated ExtensionField.read count).Agrees c (Extension.parseFields count c.rest) := by
  induction count generalizing c with
  | zero => exact Read.agrees_pure
  | succ count ih =>
      rw [Read.repeated_succ, parseFields_succ]
      cases parsed : parseField c.rest with
      | error e =>
          have failed := (exec_readField inMemory).trans (Read.exec_ofParser_error parsed)
          exact fun _ => by rw [Read.exec_bind_of_error failed]; rfl
      | ok found =>
          obtain ⟨field, used⟩ := found
          have given := (exec_readField inMemory).trans (Read.exec_ofParser_ok parsed)
          rw [Read.agrees_congr (Read.exec_bind_of_ok given), Read.map_eq_bind]
          exact Read.agrees_bind (ih (inMemory.skip (used_le_of_parseField parsed))) fun _ _ _ => Read.agrees_pure

end Fields

/-! ### The extension -/

section Extension
variable {data : Bytes} {c : Cursor} {justified : Room → Prop}

theorem safe_extensionFields (inMemory : InMemory c) : Extension.readFields.Safe justified c ↔
    ∀ count used, Vlq.decode c.rest = .ok (count, used) →
      count * extensionFieldSize ≤ isizeMax ∧ justified ⟨count, (c.rest.drop used).length⟩ := by
  simp only [Extension.readFields, Read.safe_bind, Read.safe_look, Read.gives_look, Read.safe_ofExcept,
    Read.gives_ofExcept, Except.mapError_ok_iff, Read.safe_advance, Read.gives_advance, Read.safe_withCapacity,
    Read.gives_withCapacity, true_and]
  constructor
  · intro safe count used decoded
    exact ((safe c.rest c ⟨rfl, rfl⟩ (count, used) c ⟨decoded, rfl⟩).2 () _
      ⟨(Vlq.decode_eq_ok decoded).2.1, rfl⟩).1
  · rintro fits _ _ ⟨rfl, rfl⟩ ⟨count, used⟩ _ ⟨decoded, rfl⟩
    have within := (Vlq.decode_eq_ok decoded).2.1
    refine ⟨within, ?_⟩
    rintro _ _ ⟨-, rfl⟩
    refine ⟨fits count used decoded, ?_⟩
    rintro _ _ ⟨-, rfl⟩
    exact safe_readFields (inMemory.skip within) count

/-- Behind the header id stands a number of fields, and three bytes for each of them. -/
def ExtensionFits (data : Bytes) : Prop :=
  33 ≤ data.length → ∀ count used, Vlq.decode (data.drop 32) = .ok (count, used) →
    count * extensionFieldSize ≤ isizeMax ∧ 3 * count ≤ (data.drop (32 + used)).length

theorem exec_readExtension (long : 33 ≤ data.length) : Extension.read.exec ⟨0, data⟩ =
    (Extension.readFields >>= fun fields => pure ⟨blockIdOf (data.take 32), fields⟩).exec
      ((Cursor.mk 0 data).skip 32) := by
  rw [Extension.read, Read.exec_bind_of_ok (Read.exec_look _), if_neg (Nat.not_lt_of_le long),
    Read.exec_bind_of_ok (Read.exec_take (Nat.le_of_succ_le long))]

theorem exec_readExtension_short (short : data.length < 33) :
    Extension.read.exec ⟨0, data⟩ = (Read.fail "Extension data too short" : Read String Extension).exec ⟨0, data⟩ := by
  rw [Extension.read, Read.exec_bind_of_ok (Read.exec_look _), if_pos short]

theorem safe_readExtension (memory : data.length ≤ isizeMax) :
    Extension.read.Safe (fun room => 3 * room.count ≤ room.remaining) ⟨0, data⟩ ↔ ExtensionFits data := by
  have inMemory : InMemory ⟨0, data⟩ := by simpa [InMemory] using memory
  unfold ExtensionFits
  by_cases long : 33 ≤ data.length
  · rw [Read.safe_congr (exec_readExtension long), Read.safe_bind, and_iff_left fun _ _ _ => Read.safe_pure,
      safe_extensionFields (inMemory.skip (Nat.le_of_succ_le long)), imp_iff_right long]
    simp only [Cursor.skip, List.drop_drop]
  · refine iff_of_true ?_ fun enough => absurd enough long
    exact (Read.safe_congr (exec_readExtension_short (Nat.lt_of_not_le long))).mpr (Read.safe_fail _)

theorem agrees_extensionFields (inMemory : InMemory c) :
    Extension.readFields.Agrees c (do
      let (fieldCount, bytesRead) ← (Vlq.decode c.rest).mapError
        fun e => s!"Failed to decode field count: {Extension.vlqFault e}"
      Extension.parseFields fieldCount (c.rest.drop bytesRead)) := by
  refine Read.agrees_bind_of_quiet Read.quiet_look fun rest d looked => ?_
  obtain ⟨rfl, rfl⟩ := Read.gives_look.mp looked
  refine Read.agrees_bind (Read.agrees_ofExcept _) fun found d given => ?_
  obtain ⟨decoded, rfl⟩ := Read.gives_ofExcept.mp given
  obtain ⟨count, used⟩ := found
  have within := (Vlq.decode_eq_ok ((Except.mapError_ok_iff _ _ _).mp decoded)).2.1
  refine Read.agrees_bind_of_quiet (Read.quiet_advance _) fun _ d advanced => ?_
  obtain ⟨-, rfl⟩ := Read.gives_advance.mp advanced
  refine Read.agrees_bind_of_quiet (Read.quiet_withCapacity _ _ _) fun _ d reserved => ?_
  obtain ⟨-, rfl⟩ := Read.gives_withCapacity.mp reserved
  exact agrees_readFields (inMemory.skip within) _

theorem agrees_readExtension (memory : data.length ≤ isizeMax) :
    Extension.read.Agrees ⟨0, data⟩ (Extension.parse data) := by
  have inMemory : InMemory ⟨0, data⟩ := by simpa [InMemory] using memory
  unfold Extension.parse
  by_cases long : 33 ≤ data.length
  · rw [Read.agrees_congr (exec_readExtension long), if_neg (Nat.not_lt_of_le long)]
    have fields := Read.agrees_bind (agrees_extensionFields (inMemory.skip (Nat.le_of_succ_le long)))
      fun fields d _ => Read.agrees_pure (a := (⟨blockIdOf (data.take 32), fields⟩ : Extension))
    refine Eq.mp (congrArg _ ?_) fields
    simp only [Cursor.skip, List.drop_drop]
    cases Vlq.decode (data.drop 32) <;> rfl
  · rw [Read.agrees_congr (exec_readExtension_short (Nat.lt_of_not_le long)), if_pos (Nat.lt_of_not_le long)]
    exact Read.agrees_fail _

end Extension

/-! ### The transactions -/

section Transactions
variable {sr : SigmaRust} {interpreter : Interpreter} {data : Bytes} {c d : Cursor} {justified : Room → Prop}

/-- Written again, no transaction has more bytes than were left for it. -/
def Advances (sr : SigmaRust) : Nat → Bytes → Prop
  | 0, _ => True
  | count + 1, remaining => ∀ tx txBytes, sr.parseTx remaining = .ok tx → sr.txBytes tx = .ok txBytes →
      txBytes.length ≤ remaining.length ∧ Advances sr count (remaining.drop txBytes.length)

theorem safe_readTransactions {count i : Nat} :
    (BlockTransactions.readTransactions sr count i).Safe justified c ↔ Advances sr count c.rest := by
  induction count generalizing c i with
  | zero => exact iff_of_true Read.safe_pure trivial
  | succ count ih =>
      simp only [BlockTransactions.readTransactions, Advances, Read.safe_bind, Read.safe_look, Read.gives_look,
        Read.safe_ofExcept, Read.gives_ofExcept, Except.mapError_ok_iff, Read.safe_advance, Read.gives_advance,
        Read.safe_pure, implies_true, and_true, true_and, ih]
      constructor
      · intro safe tx txBytes parsed written
        have moved := safe c.rest c ⟨rfl, rfl⟩ tx c ⟨parsed, rfl⟩ txBytes c ⟨written, rfl⟩
        exact ⟨moved.1, moved.2 () _ ⟨moved.1, rfl⟩⟩
      · rintro advances _ _ ⟨rfl, rfl⟩ tx _ ⟨parsed, rfl⟩ txBytes _ ⟨written, rfl⟩
        have moved := advances tx txBytes parsed written
        refine ⟨moved.1, ?_⟩
        rintro _ _ ⟨-, rfl⟩
        exact moved.2

theorem safe_readU32 {reason : String} : (BlockTransactions.readU32 interpreter reason).Safe justified c := by
  simp [BlockTransactions.readU32]

theorem safe_readCounts : (BlockTransactions.readCounts interpreter).Safe justified c := by
  simp [BlockTransactions.readCounts, safe_readU32]

/-- Behind the header id stands a number of transactions, a byte for each of them, and what they are when
they are written again. -/
def TransactionsFit (sr : SigmaRust) (interpreter : Interpreter) (txSize : Nat) (data : Bytes) : Prop :=
  32 ≤ data.length → ∀ blockVersion txCount behind,
    (BlockTransactions.readCounts interpreter).Gives ⟨32, data.drop 32⟩ (blockVersion, txCount) behind →
      txCount * txSize ≤ isizeMax ∧ txCount ≤ behind.rest.length ∧ Advances sr txCount behind.rest

theorem exec_readBlockTransactions {txSize : Nat} (long : 32 ≤ data.length) :
    (BlockTransactions.read sr interpreter txSize).exec ⟨0, data⟩ =
      (BlockTransactions.readCounts interpreter >>= fun counts =>
        Read.withCapacity isizeMax counts.2 txSize >>= fun _ =>
        BlockTransactions.readTransactions sr counts.2 0 >>= fun txs =>
        pure ⟨blockIdOf (data.take 32), txs, counts.1⟩).exec ((Cursor.mk 0 data).skip 32) := by
  rw [BlockTransactions.read, Read.exec_bind_of_ok (Read.exec_look _), if_neg (Nat.not_lt_of_le long),
    Read.exec_bind_of_ok (Read.exec_take long)]

theorem exec_readBlockTransactions_short {txSize : Nat} (short : data.length < 32) :
    (BlockTransactions.read sr interpreter txSize).exec ⟨0, data⟩ =
      (Read.fail .tooShort : Read _ BlockTransactions).exec ⟨0, data⟩ := by
  rw [BlockTransactions.read, Read.exec_bind_of_ok (Read.exec_look _), if_pos short]

theorem safe_readBlockTransactions {txSize : Nat} :
    (BlockTransactions.read sr interpreter txSize).Safe (fun room => room.count ≤ room.remaining) ⟨0, data⟩ ↔
      TransactionsFit sr interpreter txSize data := by
  unfold TransactionsFit
  by_cases long : 32 ≤ data.length
  · rw [Read.safe_congr (exec_readBlockTransactions long), imp_iff_right long]
    simp only [Read.safe_bind, safe_readCounts, Read.safe_withCapacity, Read.gives_withCapacity, safe_readTransactions,
      Read.safe_pure, implies_true, and_true, true_and, Prod.forall, Cursor.skip, Nat.zero_add]
    refine forall₄_congr fun blockVersion txCount behind _ => ?_
    constructor
    · rintro ⟨⟨room, bytes⟩, advances⟩
      exact ⟨room, bytes, advances () behind ⟨room, rfl⟩⟩
    · rintro ⟨room, bytes, advances⟩
      refine ⟨⟨room, bytes⟩, ?_⟩
      rintro _ _ ⟨-, rfl⟩
      exact advances
  · refine iff_of_true ?_ fun enough => absurd enough long
    exact (Read.safe_congr (exec_readBlockTransactions_short (Nat.lt_of_not_le long))).mpr (Read.safe_fail _)

def LeavesRest (interpreter : Interpreter) : Prop :=
  ∀ bytes n rest, interpreter.getU32 bytes = .ok (n, rest) → rest <:+ bytes

theorem agrees_readTransactions {count i : Nat} :
    (BlockTransactions.readTransactions sr count i).Agrees c
      (BlockTransactions.parseTransactions sr count i c.rest) := by
  induction count generalizing c i with
  | zero => exact Read.agrees_pure
  | succ count ih =>
      rw [BlockTransactions.readTransactions, BlockTransactions.parseTransactions]
      refine Read.agrees_bind_of_quiet Read.quiet_look fun remaining d looked => ?_
      obtain ⟨rfl, rfl⟩ := Read.gives_look.mp looked
      refine Read.agrees_bind (Read.agrees_ofExcept _) fun tx d parsed => ?_
      obtain ⟨-, rfl⟩ := Read.gives_ofExcept.mp parsed
      refine Read.agrees_bind (Read.agrees_ofExcept _) fun txBytes d written => ?_
      obtain ⟨-, rfl⟩ := Read.gives_ofExcept.mp written
      refine Read.agrees_bind_of_quiet (Read.quiet_advance _) fun _ d advanced => ?_
      obtain ⟨-, rfl⟩ := Read.gives_advance.mp advanced
      exact Read.agrees_bind ih fun _ _ _ => Read.agrees_pure

theorem exec_readU32 (leaves : LeavesRest interpreter) {n : Nat} {rest : Bytes}
    (found : interpreter.getU32 c.rest = .ok (n, rest)) (reason : String) :
    ∃ d, (BlockTransactions.readU32 interpreter reason).exec c = ⟨.ok (n, d), []⟩ ∧ d.rest = rest := by
  refine ⟨c.skip (c.rest.length - rest.length), ?_, ?_⟩
  · rw [BlockTransactions.readU32, Read.exec_bind_of_ok (Read.exec_look _), found]
    exact Read.exec_bind_of_ok (Read.exec_advance (Nat.sub_le ..))
  · obtain ⟨front, shape⟩ := leaves _ _ _ found
    rw [Cursor.skip, ← shape, List.length_append, Nat.add_sub_cancel, List.drop_left]

theorem exec_readU32_error {e : String} (failed : interpreter.getU32 c.rest = .error e) (reason : String) :
    (BlockTransactions.readU32 interpreter reason).exec c = ⟨.error (.error (.invalidFormat reason)), []⟩ := by
  rw [BlockTransactions.readU32, Read.exec_bind_of_ok (Read.exec_look _), failed]
  rfl

theorem agrees_behindCounts (headerId : BlockId) (txSize txCount blockVersion : Nat) :
    (Read.withCapacity isizeMax txCount txSize >>= fun _ =>
      BlockTransactions.readTransactions sr txCount 0 >>= fun txs =>
      pure (⟨headerId, txs, blockVersion⟩ : BlockTransactions)).Agrees c (do
        let txs ← BlockTransactions.parseTransactions sr txCount 0 c.rest
        return ⟨headerId, txs, blockVersion⟩) := by
  refine Read.agrees_bind_of_quiet (Read.quiet_withCapacity _ _ _) fun _ d reserved => ?_
  obtain ⟨-, rfl⟩ := Read.gives_withCapacity.mp reserved
  exact Read.agrees_bind agrees_readTransactions fun _ _ _ => Read.agrees_pure

theorem agrees_readBlockTransactions {txSize : Nat} (leaves : LeavesRest interpreter) :
    (BlockTransactions.read sr interpreter txSize).Agrees ⟨0, data⟩ (BlockTransactions.parse sr interpreter data) := by
  unfold BlockTransactions.parse
  by_cases long : 32 ≤ data.length
  · rw [Read.agrees_congr (exec_readBlockTransactions long), if_neg (Nat.not_lt_of_le long),
      BlockTransactions.readCounts, bind_assoc]
    cases first : interpreter.getU32 (data.drop 32) with
    | error e =>
        exact fun _ => by rw [Read.exec_bind_of_error (exec_readU32_error first _)]; rfl
    | ok found =>
        obtain ⟨n, rest⟩ := found
        obtain ⟨d, ran, rfl⟩ := exec_readU32 (c := (Cursor.mk 0 data).skip 32) leaves first
          "Failed to read first uint"
        rw [Read.agrees_congr (Read.exec_bind_of_ok ran)]
        by_cases marked : n > BlockTransactions.maxTransactionsInBlock
        · simp only [Except.mapError, Except.ok_bind, if_pos marked, bind_assoc, pure_bind]
          cases second : interpreter.getU32 d.rest with
          | error e => exact fun _ => by rw [Read.exec_bind_of_error (exec_readU32_error second _)]; rfl
          | ok found =>
              obtain ⟨count, rest⟩ := found
              obtain ⟨d', ran', rfl⟩ := exec_readU32 leaves second "Failed to read tx count"
              rw [Read.agrees_congr (Read.exec_bind_of_ok ran')]
              exact agrees_behindCounts _ _ _ _
        · simp only [Except.mapError, Except.ok_bind, if_neg marked, pure_bind]
          exact agrees_behindCounts _ _ _ _
  · rw [Read.agrees_congr (exec_readBlockTransactions_short (Nat.lt_of_not_le long)),
      if_pos (Nat.lt_of_not_le long)]
    exact Read.agrees_fail _

end Transactions

/-! ### Both sections -/

/-- A section is parsed without a panic exactly if it fits, and then its parser ends as the one without positions
does. The third-party readers may be any functions, but that the number reader leaves the last bytes. -/
theorem sections_parse_safely_iff (sr : SigmaRust) (interpreter : Interpreter) (txSize : Nat) (data : Bytes)
    (memory : data.length ≤ isizeMax) :
    ((Extension.read.Safe (fun room => 3 * room.count ≤ room.remaining) ⟨0, data⟩ ↔ ExtensionFits data) ∧
      ((BlockTransactions.read sr interpreter txSize).Safe (fun room => room.count ≤ room.remaining) ⟨0, data⟩ ↔
        TransactionsFit sr interpreter txSize data)) ∧
    Extension.read.Agrees ⟨0, data⟩ (Extension.parse data) ∧
      (LeavesRest interpreter → (BlockTransactions.read sr interpreter txSize).Agrees ⟨0, data⟩
        (BlockTransactions.parse sr interpreter data)) :=
  ⟨⟨safe_readExtension memory, safe_readBlockTransactions⟩, agrees_readExtension memory,
    agrees_readBlockTransactions⟩

def twoByteCodec : SigmaRust :=
  { Sample.codec [] [] [] with
    parseTx := fun _ => .ok (spendTx 1 2)
    txBytes := fun _ => .ok [0, 0] }

def twoFields : Bytes := List.replicate 32 0 ++ [2, 0, 1, 2, 8, 8, 1, 5, 0]

def twoTransactions : Bytes := List.replicate 32 0 ++ [2, 9, 9, 9, 9]

theorem twoFields_twoTransactions_parse :
    Extension.read.Safe (fun room => 3 * room.count ≤ room.remaining) ⟨0, twoFields⟩ ∧
      (Extension.read.exec ⟨0, twoFields⟩).result.map Prod.fst = .ok ⟨.zero, [⟨(0, 1), [8, 8]⟩, ⟨(1, 5), []⟩]⟩ ∧
    (BlockTransactions.read twoByteCodec sampleInterpreter 400).Safe (fun room => room.count ≤ room.remaining)
        ⟨0, twoTransactions⟩ ∧
      ((BlockTransactions.read twoByteCodec sampleInterpreter 400).exec ⟨0, twoTransactions⟩).result.map Prod.fst =
        .ok ⟨.zero, [spendTx 1 2, spendTx 1 2], 1⟩ := by
  obtain ⟨⟨extension, -⟩, fields, -⟩ :=
    sections_parse_safely_iff twoByteCodec sampleInterpreter 400 twoFields (by decide)
  obtain ⟨⟨-, transactions⟩, -, txs⟩ :=
    sections_parse_safely_iff twoByteCodec sampleInterpreter 400 twoTransactions (by decide)
  have extensionSafe := extension.mpr fun _ count used decoded => by
    have two : Vlq.decode (twoFields.drop 32) = .ok (2, 1) := rfl
    cases two.symm.trans decoded
    decide
  have transactionsSafe := transactions.mpr fun _ blockVersion txCount behind given => by
    have two : (BlockTransactions.readCounts sampleInterpreter).Gives ⟨32, twoTransactions.drop 32⟩ (1, 2)
        ⟨33, [9, 9, 9, 9]⟩ := rfl
    obtain ⟨same, rfl⟩ := given.unique two
    cases same
    refine ⟨by decide, by decide, fun tx txBytes _ written => ?_⟩
    cases written
    refine ⟨by decide, fun tx txBytes _ written => ?_⟩
    cases written
    exact ⟨by decide, trivial⟩
  have leaves : LeavesRest sampleInterpreter := by
    intro bytes n rest found
    cases bytes with
    | nil => cases found
    | cons byte bytes =>
        cases found
        exact List.suffix_cons ..
  exact ⟨extensionSafe, (fields extensionSafe.1).trans rfl, transactionsSafe,
    (txs leaves transactionsSafe.1).trans rfl⟩

/-- An extension that announces 2 ^ 62 fields, and a transaction that is written with more bytes than are
left. -/
theorem sections_panic :
    (Extension.read.exec ⟨0, List.replicate 32 0 ++ Vlq.encode (2 ^ 62)⟩).result = .error .panic ∧
      ((BlockTransactions.read twoByteCodec sampleInterpreter 400).exec ⟨0, List.replicate 32 0 ++ [1, 0]⟩).result =
        .error .panic :=
  ⟨rfl, rfl⟩

end ErgoNode.Proof.Validation
