import Mathlib.Data.List.Basic
import Mathlib.Tactic.SplitIfs
import Simian.Text.Utf8

/-!
# Bytes that encode characters

The bytes of a character are told from the first of them: it says how many have to follow, and what follows is not like it. So the decoder hands out a character exactly where bytes stand that encode it, and an error everywhere else: a text is decoded from its bytes (`decodeUtf8_utf8Bytes`), and characters that are decoded stand in the bytes (`exists_of_decodeFrom_eq`).
-/

namespace Simian.Text

/-- The bytes that encode a text. -/
def utf8Bytes (text : String) : List UInt8 :=
  text.toUTF8.data.toList

theorem utf8Bytes_ofList (chars : List Char) : utf8Bytes (String.ofList chars) = chars.flatMap String.utf8EncodeChar :=
  List.toList_data_toByteArray

theorem utf8Bytes_eq (text : String) : utf8Bytes text = text.toList.flatMap String.utf8EncodeChar := by
  rw [← utf8Bytes_ofList, String.ofList_toList]

theorem length_utf8Bytes (text : String) : (utf8Bytes text).length = text.utf8ByteSize :=
  Array.length_toList

/-- A byte that goes on with a character. -/
def isContinuation (b : UInt8) : Bool :=
  0x80 ≤ b.toNat && b.toNat < 0xc0

/-! ### Sequences of bytes -/

namespace Pending

/-- Adds continuation bytes. -/
def pushAll (p : Pending) (conts : List UInt8) : Pending :=
  conts.foldl (fun p b => ⟨p.missing - 1, p.value * 0x40 + b.toNat % 0x40, p.least⟩) p

theorem missing_pushAll (p : Pending) (conts : List UInt8) : (p.pushAll conts).missing = p.missing - conts.length := by
  induction conts generalizing p with
  | nil => rfl
  | cons b conts ih =>
    have hrest := ih ⟨p.missing - 1, p.value * 0x40 + b.toNat % 0x40, p.least⟩
    rw [List.length_cons, Nat.add_comm, ← Nat.sub_sub]
    exact hrest

theorem push?_of_isContinuation {b : UInt8} (p : Pending) (hb : isContinuation b = true) :
    p.push? b.toNat = some ⟨p.missing - 1, p.value * 0x40 + b.toNat % 0x40, p.least⟩ := by
  simp only [isContinuation, Bool.and_eq_true, decide_eq_true_eq] at hb
  exact if_pos hb

theorem push?_of_not_isContinuation {b : UInt8} (p : Pending) (hb : isContinuation b = false) :
    p.push? b.toNat = none := by
  refine if_neg fun hbounds => ?_
  simp [isContinuation, hbounds] at hb

/-- The items of `bytes` behind those of a character that may be complete. -/
def decode (p : Pending) (bytes : List UInt8) : List (Except IoError Char) :=
  p.settle.complete ++ decodeFrom p.settle.pending bytes

section Decode

variable {p : Pending} {b : UInt8} {conts : List UInt8}

theorem decode_complete (h : p.missing = 0) (bytes : List UInt8) : p.decode bytes = p.char? :: decodeFrom none bytes := by
  rw [decode, settle, if_pos h]
  rfl

theorem decode_missing (h : p.missing ≠ 0) (bytes : List UInt8) : p.decode bytes = decodeFrom (some p) bytes := by
  rw [decode, settle, if_neg h]
  rfl

theorem decode_push (h : p.missing ≠ 0) (hb : isContinuation b = true) (bytes : List UInt8) :
    p.decode (b :: bytes) = decode ⟨p.missing - 1, p.value * 0x40 + b.toNat % 0x40, p.least⟩ bytes := by
  rw [decode_missing h, decodeFrom]
  simp only [Progress.advance, p.push?_of_isContinuation hb]
  rfl

theorem decode_break (h : p.missing ≠ 0) (hb : isContinuation b = false) (bytes : List UInt8) :
    p.decode (b :: bytes) = .error .invalidData :: decodeFrom none (b :: bytes) := by
  rw [decode_missing h, decodeFrom, decodeFrom]
  simp only [Progress.advance, p.push?_of_not_isContinuation hb]
  rfl

theorem decode_append (hconts : conts.all isContinuation = true) (hlength : conts.length ≤ p.missing) (bytes : List UInt8) :
    p.decode (conts ++ bytes) = (p.pushAll conts).decode bytes := by
  induction conts generalizing p with
  | nil => rfl
  | cons b conts ih =>
    rw [List.all_cons, Bool.and_eq_true] at hconts
    rw [List.length_cons] at hlength
    rw [List.cons_append, decode_push (Nat.ne_zero_of_lt hlength) hconts.1]
    exact ih hconts.2 (Nat.le_sub_one_of_lt hlength)

end Decode

end Pending

theorem decodeFrom_lead {lead : UInt8} {p : Pending} (hlead : lead? lead.toNat = some p) (bytes : List UInt8) :
    decodeFrom none (lead :: bytes) = p.decode bytes := by
  rw [decodeFrom]
  simp only [Progress.advance, Progress.start, hlead]
  rfl

theorem decodeFrom_stray {b : UInt8} (hb : lead? b.toNat = none) (bytes : List UInt8) :
    decodeFrom none (b :: bytes) = .error .invalidData :: decodeFrom none bytes := by
  rw [decodeFrom]
  simp only [Progress.advance, Progress.start, hb]
  rfl

/-- A whole sequence is one item, and what follows it is decoded on its own. -/
theorem decodeFrom_sequence {lead : UInt8} {conts : List UInt8} {p : Pending} (hlead : lead? lead.toNat = some p)
    (hconts : conts.all isContinuation = true) (hlength : conts.length = p.missing) (rest : List UInt8) :
    decodeFrom none (lead :: conts ++ rest) = (p.pushAll conts).char? :: decodeFrom none rest := by
  have hmissing : (p.pushAll conts).missing = 0 := by rw [Pending.missing_pushAll, hlength, Nat.sub_self]
  rw [List.cons_append, decodeFrom_lead hlead, Pending.decode_append hconts (Nat.le_of_eq hlength),
    Pending.decode_complete hmissing]

/-! ### Characters -/

theorem isContinuation_iff {b : UInt8} : isContinuation b = true ↔ 0x80 ≤ b.toNat ∧ b.toNat < 0xc0 := by
  simp [isContinuation]

theorem toNat_ofNat {n : Nat} (hn : n < 0x100) : (UInt8.ofNat n).toNat = n :=
  UInt8.toNat_ofNat_of_lt' hn

theorem isContinuation_ofNat (n : Nat) : isContinuation (UInt8.ofNat (n % 0x40 + 0x80)) = true := by
  rw [isContinuation_iff, toNat_ofNat (by omega)]
  omega

section Lead

variable {n : Nat}

theorem lead?_one (hn : n < 0x80) : lead? (UInt8.ofNat n).toNat = some ⟨0, n, 0⟩ := by
  rw [toNat_ofNat (by omega), lead?, if_pos hn]

theorem lead?_two (hn : n < 0x20) : lead? (UInt8.ofNat (n + 0xc0)).toNat = some ⟨1, n, 0x80⟩ := by
  have hvalue : (n + 0xc0) % 0x20 = n := by omega
  rw [toNat_ofNat (by omega), lead?, if_neg (by omega), if_pos (by omega), hvalue]

theorem lead?_three (hn : n < 0x10) : lead? (UInt8.ofNat (n + 0xe0)).toNat = some ⟨2, n, 0x800⟩ := by
  have hvalue : (n + 0xe0) % 0x10 = n := by omega
  rw [toNat_ofNat (by omega), lead?, if_neg (by omega), if_neg (by omega), if_pos (by omega), hvalue]

theorem lead?_four (hn : n < 0x08) : lead? (UInt8.ofNat (n + 0xf0)).toNat = some ⟨3, n, 0x10000⟩ := by
  have hvalue : (n + 0xf0) % 0x08 = n := by omega
  rw [toNat_ofNat (by omega), lead?, if_neg (by omega), if_neg (by omega), if_neg (by omega), if_pos (by omega), hvalue]

end Lead

/-- The bytes of a character are a whole sequence. -/
theorem exists_sequence (c : Char) :
    ∃ lead conts p, String.utf8EncodeChar c = lead :: conts ∧ lead? lead.toNat = some p ∧
      conts.all isContinuation = true ∧ conts.length = p.missing := by
  unfold String.utf8EncodeChar
  by_cases hone : c.val.toNat ≤ 0x7f
  · rw [if_pos hone]
    exact ⟨_, _, _, rfl, lead?_one (Nat.lt_succ_of_le hone), rfl, rfl⟩
  by_cases htwo : c.val.toNat ≤ 0x7ff
  · rw [if_neg hone, if_pos htwo]
    refine ⟨_, _, _, rfl, lead?_two (Nat.mod_lt _ (by decide)), ?_, rfl⟩
    simp only [List.all_cons, List.all_nil, isContinuation_ofNat, Bool.and_true]
  by_cases hthree : c.val.toNat ≤ 0xffff
  · rw [if_neg hone, if_neg htwo, if_pos hthree]
    refine ⟨_, _, _, rfl, lead?_three (Nat.mod_lt _ (by decide)), ?_, rfl⟩
    simp only [List.all_cons, List.all_nil, isContinuation_ofNat, Bool.and_true]
  · rw [if_neg hone, if_neg htwo, if_neg hthree]
    refine ⟨_, _, _, rfl, lead?_four (Nat.mod_lt _ (by decide)), ?_, rfl⟩
    simp only [List.all_cons, List.all_nil, isContinuation_ofNat, Bool.and_true]

theorem ofNat_cons_eq_iff {n : Nat} {b : UInt8} {bytes bytes' : List UInt8} (hn : n < 0x100) :
    UInt8.ofNat n :: bytes = b :: bytes' ↔ n = b.toNat ∧ bytes = bytes' := by
  rw [List.cons.injEq, ← UInt8.toNat_inj, toNat_ofNat hn]

theorem toNat_lt (c : Char) : c.toNat < 0x110000 := by
  have hvalid : c.toNat.isValidChar := c.valid
  rcases hvalid with h | h <;> omega

section Encode

variable {c : Char} {b b₁ b₂ b₃ : UInt8}

theorem utf8EncodeChar_eq_one : String.utf8EncodeChar c = [b] ↔ c.toNat < 0x80 ∧ c.toNat = b.toNat := by
  have hlt := toNat_lt c
  rw [String.utf8EncodeChar, show c.val.toNat = c.toNat from rfl]
  split_ifs <;> simp (disch := omega) only [ofNat_cons_eq_iff, reduceCtorEq, and_false, and_true, false_iff] <;> omega

theorem utf8EncodeChar_eq_two : String.utf8EncodeChar c = [b, b₁] ↔
    0x80 ≤ c.toNat ∧ c.toNat < 0x800 ∧ c.toNat / 0x40 + 0xc0 = b.toNat ∧ c.toNat % 0x40 + 0x80 = b₁.toNat := by
  have hlt := toNat_lt c
  rw [String.utf8EncodeChar, show c.val.toNat = c.toNat from rfl]
  split_ifs <;> simp (disch := omega) only [ofNat_cons_eq_iff, reduceCtorEq, and_false, and_true, false_iff] <;> omega

theorem utf8EncodeChar_eq_three : String.utf8EncodeChar c = [b, b₁, b₂] ↔
    0x800 ≤ c.toNat ∧ c.toNat < 0x10000 ∧ c.toNat / 0x1000 + 0xe0 = b.toNat ∧
      c.toNat / 0x40 % 0x40 + 0x80 = b₁.toNat ∧ c.toNat % 0x40 + 0x80 = b₂.toNat := by
  have hlt := toNat_lt c
  rw [String.utf8EncodeChar, show c.val.toNat = c.toNat from rfl]
  split_ifs <;> simp (disch := omega) only [ofNat_cons_eq_iff, reduceCtorEq, and_false, and_true, false_iff] <;> omega

theorem utf8EncodeChar_eq_four : String.utf8EncodeChar c = [b, b₁, b₂, b₃] ↔
    0x10000 ≤ c.toNat ∧ c.toNat / 0x40000 + 0xf0 = b.toNat ∧ c.toNat / 0x1000 % 0x40 + 0x80 = b₁.toNat ∧
      c.toNat / 0x40 % 0x40 + 0x80 = b₂.toNat ∧ c.toNat % 0x40 + 0x80 = b₃.toNat := by
  have hlt := toNat_lt c
  rw [String.utf8EncodeChar, show c.val.toNat = c.toNat from rfl]
  split_ifs <;> simp (disch := omega) only [ofNat_cons_eq_iff, reduceCtorEq, and_false, and_true, false_iff] <;> omega

end Encode

theorem Pending.char?_eq_ok_iff (p : Pending) (c : Char) : p.char? = .ok c ↔ p.least ≤ p.value ∧ p.value = c.toNat := by
  unfold char?
  split
  · rename_i h
    rw [Except.ok.injEq]
    constructor
    · rintro rfl
      refine ⟨h.1, ?_⟩
      rw [Char.ofNat, dif_pos h.2]
      rfl
    · rintro ⟨-, hvalue⟩
      rw [hvalue, Char.ofNat_toNat]
  · rename_i h
    refine ⟨nofun, fun ⟨hleast, hvalue⟩ => absurd ⟨hleast, ?_⟩ h⟩
    rw [hvalue]
    exact c.valid

theorem Pending.exists_char (p : Pending) : (∃ c, p.char? = .ok c) ∨ p.char? = .error .invalidData := by
  unfold char?
  split
  · exact .inl ⟨_, rfl⟩
  · exact .inr rfl

/-- All the bytes of a sequence make a character exactly if they encode it: a shorter encoding would leave the value below the least one. -/
theorem char?_pushAll_eq_ok_iff {lead : UInt8} {conts : List UInt8} {p : Pending} (hlead : lead? lead.toNat = some p)
    (hconts : conts.all isContinuation = true) (hlength : conts.length = p.missing) (c : Char) :
    (p.pushAll conts).char? = .ok c ↔ String.utf8EncodeChar c = lead :: conts := by
  have hlt := toNat_lt c
  rw [Pending.char?_eq_ok_iff]
  simp only [List.all_eq_true, isContinuation_iff] at hconts
  unfold lead? at hlead
  split_ifs at hlead <;> cases hlead
  · obtain rfl := List.length_eq_zero_iff.mp hlength
    rw [utf8EncodeChar_eq_one]
    simp only [Pending.pushAll, List.foldl_nil]
    omega
  · obtain ⟨b₁, rfl⟩ := List.length_eq_one_iff.mp hlength
    rw [utf8EncodeChar_eq_two]
    simp only [List.forall_mem_cons] at hconts
    simp only [Pending.pushAll, List.foldl_cons, List.foldl_nil]
    omega
  · obtain ⟨b₁, b₂, rfl⟩ := List.length_eq_two.mp hlength
    rw [utf8EncodeChar_eq_three]
    simp only [List.forall_mem_cons] at hconts
    simp only [Pending.pushAll, List.foldl_cons, List.foldl_nil]
    omega
  · obtain ⟨b₁, b₂, b₃, rfl⟩ := List.length_eq_three.mp hlength
    rw [utf8EncodeChar_eq_four]
    simp only [List.forall_mem_cons] at hconts
    simp only [Pending.pushAll, List.foldl_cons, List.foldl_nil]
    omega

/-! ### Texts -/

theorem decodeFrom_char (c : Char) (rest : List UInt8) :
    decodeFrom none (String.utf8EncodeChar c ++ rest) = .ok c :: decodeFrom none rest := by
  obtain ⟨lead, conts, p, hencode, hlead, hconts, hlength⟩ := exists_sequence c
  have hchar := (char?_pushAll_eq_ok_iff hlead hconts hlength c).mpr hencode
  rw [hencode, decodeFrom_sequence hlead hconts hlength, hchar]

theorem decodeFrom_utf8Bytes_append (text : String) (rest : List UInt8) :
    decodeFrom none (utf8Bytes text ++ rest) = text.toList.map .ok ++ decodeFrom none rest := by
  rw [utf8Bytes_eq]
  induction text.toList with
  | nil => rfl
  | cons c chars ih => rw [List.flatMap_cons, List.append_assoc, decodeFrom_char, ih, List.map_cons, List.cons_append]

theorem decodeUtf8_utf8Bytes (text : String) : decodeUtf8 (utf8Bytes text) = text.toList.map .ok := by
  have hdecode := decodeFrom_utf8Bytes_append text []
  rwa [List.append_nil, decodeFrom, if_neg (by decide), List.append_nil] at hdecode

/-- An error shows that the bytes encode no text. -/
theorem utf8Bytes_ne {bytes : List UInt8} {chars : List Char} {error : IoError} {behind : List (Except IoError Char)}
    (h : decodeUtf8 bytes = chars.map .ok ++ .error error :: behind) (text : String) : utf8Bytes text ≠ bytes := by
  rintro rfl
  have herror : .error error ∈ decodeUtf8 (utf8Bytes text) := h ▸ List.mem_append_right _ List.mem_cons_self
  simp [decodeUtf8_utf8Bytes] at herror

theorem exists_conts (n : Nat) (bytes : List UInt8) :
    ∃ conts rest, bytes = conts ++ rest ∧ conts.all isContinuation = true ∧
      (conts.length = n ∨ conts.length < n ∧ rest.head?.any isContinuation = false) := by
  induction n generalizing bytes with
  | zero => exact ⟨[], bytes, rfl, rfl, .inl rfl⟩
  | succ n ih =>
    cases bytes with
    | nil => exact ⟨[], [], rfl, rfl, .inr ⟨Nat.zero_lt_succ n, rfl⟩⟩
    | cons b bytes =>
      by_cases hb : isContinuation b = true
      · obtain ⟨conts, rest, rfl, hconts, hlength⟩ := ih bytes
        refine ⟨b :: conts, rest, rfl, ?_, ?_⟩
        · rw [List.all_cons, hb, hconts]
          rfl
        · exact hlength.imp (congrArg Nat.succ) (And.imp_left Nat.succ_lt_succ)
      · exact ⟨[], b :: bytes, rfl, rfl, .inr ⟨Nat.zero_lt_succ n, by simpa using hb⟩⟩

/-- Where no character is encoded, an error stands. -/
theorem decodeFrom_cases (bytes : List UInt8) :
    bytes = [] ∨ (∃ c rest, bytes = String.utf8EncodeChar c ++ rest) ∨
      ∃ error behind, decodeFrom none bytes = .error error :: behind := by
  cases bytes with
  | nil => exact .inl rfl
  | cons lead bytes =>
    refine .inr ?_
    cases hlead : lead? lead.toNat with
    | none => exact .inr ⟨_, _, decodeFrom_stray hlead bytes⟩
    | some p =>
      obtain ⟨conts, rest, rfl, hconts, hlength⟩ := exists_conts p.missing bytes
      rcases hlength with hlength | ⟨hlength, hend⟩
      · have hdecode := decodeFrom_sequence hlead hconts hlength rest
        rcases (p.pushAll conts).exists_char with ⟨c, hchar⟩ | hchar
        · have hencode := (char?_pushAll_eq_ok_iff hlead hconts hlength c).mp hchar
          exact .inl ⟨c, rest, congrArg (· ++ rest) hencode.symm⟩
        · rw [hchar] at hdecode
          exact .inr ⟨_, _, hdecode⟩
      · -- Some of the bytes that should go on are missing.
        have hmissing : (p.pushAll conts).missing ≠ 0 := by
          rw [Pending.missing_pushAll]
          exact Nat.sub_ne_zero_of_lt hlength
        have hdecode : decodeFrom none (lead :: (conts ++ rest)) = (p.pushAll conts).decode rest := by
          rw [decodeFrom_lead hlead, Pending.decode_append hconts (Nat.le_of_lt hlength)]
        cases rest with
        | nil => exact .inr ⟨_, _, hdecode.trans (Pending.decode_missing hmissing [])⟩
        | cons b rest =>
          have hb : isContinuation b = false := by simpa using hend
          exact .inr ⟨_, _, hdecode.trans (Pending.decode_break hmissing hb rest)⟩

/-- Characters are handed out only for the bytes that encode them. -/
theorem exists_of_decodeFrom_eq {bytes : List UInt8} {chars : List Char} {items : List (Except IoError Char)}
    (h : decodeFrom none bytes = chars.map .ok ++ items) :
    ∃ rest, bytes = utf8Bytes (String.ofList chars) ++ rest ∧ decodeFrom none rest = items := by
  rw [utf8Bytes_ofList]
  induction chars generalizing bytes with
  | nil => exact ⟨bytes, rfl, h⟩
  | cons c chars ih =>
    rcases decodeFrom_cases bytes with rfl | ⟨d, rest, rfl⟩ | ⟨error, behind, herror⟩
    · cases h
    · rw [decodeFrom_char, List.map_cons, List.cons_append, List.cons.injEq, Except.ok.injEq] at h
      obtain ⟨rest, rfl, hrest⟩ := ih h.2
      exact ⟨rest, by rw [h.1, List.flatMap_cons, List.append_assoc], hrest⟩
    · cases herror.symm.trans h

end Simian.Text
