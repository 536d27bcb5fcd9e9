import ErgoNode.Network.Message

/-!
# What the readers read

For each part of a message, when its reader gives a value and where it goes on.
-/

namespace ErgoNode.Proof.Network
open Lib

variable {justified : Room → Prop} {c d : Cursor}

def jump (n : Nat) (c : Cursor) : Option Cursor := if n ≤ c.rest.length then some (c.skip n) else none

@[simp] theorem jump_eq_some {n : Nat} : jump n c = some d ↔ n ≤ c.rest.length ∧ c.skip n = d := by
  simp [jump]

@[simp] theorem safe_require {n : Nat} {reason : String} : (require n reason).Safe justified c := by
  simp [require]

@[simp] theorem gives_require {n : Nat} {reason : String} {u : Unit} :
    (require n reason).Gives c u d ↔ n ≤ c.rest.length ∧ c = d := by
  simp [require, and_comm]

theorem vlqDecode_ok {data : Bytes} {value used : Nat} :
    vlqDecode data = .ok (value, used) ↔ Vlq.decode data = .ok (value, used) := by
  unfold vlqDecode
  cases Vlq.decode data <;> simp [Except.mapError]

@[simp] theorem vlqDecode_eq_ok {data : Bytes} {value used : Nat} {describe : NetworkError → NetworkError} :
    (vlqDecode data).mapError describe = .ok (value, used) ↔ Vlq.decode data = .ok (value, used) := by
  rw [← vlqDecode_ok]
  cases vlqDecode data <;> simp [Except.mapError]

theorem byteLen_fits {data : Bytes} {value used : Nat} (decoded : Vlq.decode data = .ok (value, used)) :
    Vlq.byteLen value ≤ data.length :=
  Nat.le_trans (Vlq.byteLen_le decoded) (Vlq.decode_eq_ok decoded).2.1

theorem exec_readVlqAs {describe : NetworkError → NetworkError} {value used : Nat}
    (decoded : Vlq.decode c.rest = .ok (value, used)) :
    (readVlqAs describe).exec c = ⟨.ok (value, c.skip used), []⟩ := by
  rw [readVlqAs, Read.exec_bind_of_ok (Read.exec_look c), vlqDecode_eq_ok.mpr decoded,
    Read.exec_bind_of_ok (Read.exec_ofExcept _ c)]
  exact Read.exec_bind_of_ok (Read.exec_advance (Vlq.decode_eq_ok decoded).2.1)

theorem exec_readVlqAs_error {describe : NetworkError → NetworkError} {fault : Vlq.Fault}
    (broken : Vlq.decode c.rest = .error fault) :
    (readVlqAs describe).exec c = ⟨.error (.error (describe (vlqFault fault))), []⟩ := by
  rw [readVlqAs, Read.exec_bind_of_ok (Read.exec_look c), vlqDecode, broken]
  rfl

@[simp] theorem gives_readVlqAs {describe : NetworkError → NetworkError} {value : Nat} :
    (readVlqAs describe).Gives c value d ↔ ∃ used, Vlq.decode c.rest = .ok (value, used) ∧ c.skip used = d := by
  simp only [readVlqAs, Read.gives_bind, Read.gives_look, Read.gives_ofExcept, Read.gives_advance,
    Read.gives_pure]
  constructor
  · rintro ⟨rest, _, ⟨rfl, rfl⟩, ⟨value', used⟩, _, ⟨decoded, rfl⟩, _, _, ⟨-, rfl⟩, rfl, rfl⟩
    exact ⟨used, vlqDecode_eq_ok.mp decoded, rfl⟩
  · rintro ⟨used, decoded, rfl⟩
    exact ⟨c.rest, c, ⟨rfl, rfl⟩, (value, used), c, ⟨vlqDecode_eq_ok.mpr decoded, rfl⟩, (), c.skip used,
      ⟨(Vlq.decode_eq_ok decoded).2.1, rfl⟩, rfl, rfl⟩

@[simp] theorem safe_readVlqAs {describe : NetworkError → NetworkError} :
    (readVlqAs describe).Safe justified c := by
  simp only [readVlqAs, Read.safe_bind, Read.safe_look, Read.gives_look, Read.safe_ofExcept,
    Read.gives_ofExcept, Read.safe_advance, Read.safe_pure, true_and, implies_true, and_true]
  rintro _ _ ⟨rfl, rfl⟩ ⟨value, used⟩ _ ⟨decoded, rfl⟩
  exact (Vlq.decode_eq_ok (vlqDecode_eq_ok.mp decoded)).2.1

@[simp] theorem safe_readVlq : readVlq.Safe justified c := safe_readVlqAs

@[simp] theorem gives_readVlq {value : Nat} :
    readVlq.Gives c value d ↔ ∃ used, Vlq.decode c.rest = .ok (value, used) ∧ c.skip used = d :=
  gives_readVlqAs

/-! ### Peers -/

def skipString (c : Cursor) : Option Cursor := c.rest.head?.bind fun len => jump len.toNat (c.skip 1)

def skipIp (c : Cursor) : Option Cursor :=
  c.rest.head?.bind fun addrType =>
    if addrType = 8 then jump 4 (c.skip 1) else if addrType = 20 then jump 16 (c.skip 1) else none

def skipVlq (c : Cursor) : Option Cursor :=
  match Vlq.decode c.rest with
  | .ok (_, used) => some (c.skip used)
  | .error _ => none

def skipDeclaredAddr (c : Cursor) : Option Cursor :=
  match c.rest.head? with
  | none => some c
  | some marker => if marker = 1 then (skipIp (c.skip 1)).bind skipVlq else some (c.skip 1)

theorem ne_nil_of_require {rest : Bytes} (enough : 1 ≤ rest.length) : rest ≠ [] := by
  rintro rfl
  simp at enough

@[simp] theorem safe_readShortString {noLength noText : String} :
    (readShortString noLength noText).Safe justified c := by
  simpa [readShortString] using ne_nil_of_require

theorem gives_readShortString {noLength noText : String} :
    (∃ text, (readShortString noLength noText).Gives c text d) ↔ skipString c = some d := by
  obtain ⟨pos, rest⟩ := c
  cases rest with
  | nil => simp [readShortString, skipString]
  | cons len rest => simp [readShortString, skipString]

theorem three_bytes {rest : Bytes} (enough : 3 ≤ rest.length) : ∃ a b e more, rest = a :: b :: e :: more := by
  match rest with
  | a :: b :: e :: more => exact ⟨a, b, e, more, rfl⟩

@[simp] theorem safe_readVersion : readVersion.Safe justified c := by
  obtain ⟨pos, rest⟩ := c
  simp only [readVersion, Read.safe_bind, safe_require, gives_require, true_and]
  rintro _ _ ⟨enough, rfl⟩
  obtain ⟨a, b, e, more, rfl⟩ := three_bytes enough
  simp [Cursor.skip]

theorem gives_readVersion : (∃ version, readVersion.Gives c version d) ↔ jump 3 c = some d := by
  obtain ⟨pos, rest⟩ := c
  by_cases enough : 3 ≤ rest.length
  · obtain ⟨a, b, e, more, rfl⟩ := three_bytes enough
    simp [readVersion, Cursor.skip]
  · simp [readVersion, enough]

@[simp] theorem safe_readIp : readIp.Safe justified c := by
  simpa [readIp] using ne_nil_of_require

theorem gives_readIp : (∃ ip, readIp.Gives c ip d) ↔ skipIp c = some d := by
  obtain ⟨pos, rest⟩ := c
  cases rest with
  | nil => simp [readIp, skipIp]
  | cons addrType rest =>
      by_cases v4 : addrType = 8
      · simp [readIp, skipIp, v4]
      · by_cases v6 : addrType = 20
        · simp [readIp, skipIp, v6]
        · simp [readIp, skipIp, v4, v6]

theorem skipVlq_eq_some : skipVlq c = some d ↔ ∃ value, readVlq.Gives c value d := by
  simp only [skipVlq, gives_readVlq]
  cases Vlq.decode c.rest with
  | error fault => simp
  | ok decoded => simp [Prod.ext_iff]

@[simp] theorem safe_readDeclaredAddr : readDeclaredAddr.Safe justified c := by
  simp [readDeclaredAddr]

theorem gives_readDeclaredAddr : (∃ addr, readDeclaredAddr.Gives c addr d) ↔ skipDeclaredAddr c = some d := by
  obtain ⟨pos, rest⟩ := c
  cases rest with
  | nil => simp [readDeclaredAddr, skipDeclaredAddr]
  | cons marker rest =>
      by_cases declared : marker = 1
      · simp only [skipDeclaredAddr, List.head?_cons, declared, if_true, Option.bind_eq_some_iff,
          ← gives_readIp, skipVlq_eq_some]
        simp only [readDeclaredAddr, Read.gives_bind, Read.gives_look, Read.gives_ite, Read.gives_byte,
          Read.gives_pure]
        constructor
        · rintro ⟨_, _, _, ⟨rfl, rfl⟩, more⟩
          rw [if_neg (List.cons_ne_nil _ _)] at more
          obtain ⟨_, _, ⟨⟨⟩, rfl⟩, more⟩ := more
          rw [if_pos rfl] at more
          obtain ⟨ip, e, address, port, _, number, rfl, rfl⟩ := more
          exact ⟨e, ⟨ip, address⟩, port, number⟩
        · rintro ⟨e, ⟨ip, address⟩, port, number⟩
          refine ⟨some ⟨ip, UInt16.ofNat port⟩, _, _, ⟨rfl, rfl⟩, ?_⟩
          rw [if_neg (List.cons_ne_nil _ _)]
          refine ⟨1, _, ⟨rfl, rfl⟩, ?_⟩
          rw [if_pos rfl]
          exact ⟨ip, e, address, port, d, number, rfl, rfl⟩
      · simp [readDeclaredAddr, skipDeclaredAddr, declared]

/-! ### More bytes -/

theorem local_require (n : Nat) (reason : String) : (require n reason).Local := by
  intro c u d more given
  obtain ⟨enough, rfl⟩ := gives_require.mp given
  exact gives_require.mpr ⟨Nat.le_trans enough (by simp), rfl⟩

theorem local_readVlq : readVlq.Local := by
  intro c value d more given
  obtain ⟨used, decoded, rfl⟩ := gives_readVlq.mp given
  exact gives_readVlq.mpr ⟨used, Vlq.decode_append decoded more,
    Read.skip_append (Vlq.decode_eq_ok decoded).2.1 more⟩

theorem local_readShortString (noLength noText : String) : (readShortString noLength noText).Local :=
  (local_require _ _).bind fun _ => Read.local_byte.bind fun _ => (local_require _ _).bind fun _ =>
    (Read.local_take _).bind fun _ => Read.local_pure

theorem local_readVersion : readVersion.Local :=
  (local_require _ _).bind fun _ => Read.local_byte.bind fun _ => Read.local_byte.bind fun _ =>
    Read.local_byte.bind fun _ => Read.local_pure

theorem local_readIp : readIp.Local := by
  refine (local_require _ _).bind fun _ => Read.local_byte.bind fun addrType => ?_
  refine Read.local_ite ?_ (Read.local_ite ?_ (Read.local_fail _))
  · exact (local_require _ _).bind fun _ => (Read.local_take _).bind fun _ => Read.local_pure
  · exact (local_require _ _).bind fun _ => (Read.local_take _).bind fun _ => Read.local_pure

end ErgoNode.Proof.Network
