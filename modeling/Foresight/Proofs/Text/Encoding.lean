import Mathlib.Data.String.Basic
import Foresight.Text.Utf8

/-!
# Texts and their bytes

Two facts about the bytes that a text is written as. They are read back as the characters of the
text (`decode_toUTF8`), and they order texts as the characters do (`toUTF8_lt_iff`), so a list that
is sorted by characters is in ascending order of its bytes.

Both come down to one character before arbitrary bytes, by the length of its encoding.
-/

namespace Foresight.Text

theorem toList_loop (bytes : ByteArray) (i : Nat) (read : List UInt8) :
    ByteArray.toList.loop bytes i read = read.reverse ++ bytes.data.toList.drop i := by
  fun_induction ByteArray.toList.loop bytes i read with
  | case1 i read h ih =>
    have hi : i < bytes.data.toList.length := by rw [Array.length_toList]; exact h
    have hget : bytes.get! i = bytes.data.toList[i] := getElem!_pos bytes.data i h
    rw [ih, List.drop_eq_getElem_cons hi, hget, List.reverse_cons, List.append_assoc,
      List.singleton_append]
  | case2 i read h =>
    have hi : bytes.data.toList.length ≤ i := by
      rw [Array.length_toList]; exact Nat.le_of_not_lt h
    rw [List.drop_eq_nil_of_le hi, List.append_nil]

/-- The bytes of a text are those of its characters, one character after the other. -/
theorem toList_toUTF8 (text : String) :
    text.toUTF8.toList = text.toList.flatMap String.utf8EncodeChar := by
  obtain ⟨chars, rfl⟩ := text.exists_eq_ofList
  rw [ByteArray.toList, toList_loop]
  simp only [String.toUTF8_eq_toByteArray, String.toByteArray_ofList, List.utf8Encode,
    String.toList_ofList, List.data_toByteArray, List.drop_zero, List.reverse_nil, List.nil_append]

theorem toNat_ofNat {n : Nat} (h : n < 256) : (UInt8.ofNat n).toNat = n := by
  rw [UInt8.toNat_ofNat']; exact Nat.mod_eq_of_lt h

/-! ## Reading back -/

namespace Utf8

theorem isContinuation_iff {b : UInt8} :
    isContinuation b = true ↔ 0x80 ≤ b.toNat ∧ b.toNat ≤ 0xbf := by
  simp [isContinuation, UInt8.le_iff_toNat_le]

/-- The second byte is a continuation, within narrower bounds behind four of the leads. -/
theorem admits_iff {lead b : UInt8} : admits lead b = true ↔
    0x80 ≤ b.toNat ∧ b.toNat ≤ 0xbf ∧ (lead.toNat = 0xe0 → 0xa0 ≤ b.toNat) ∧
      (lead.toNat = 0xed → b.toNat ≤ 0x9f) ∧ (lead.toNat = 0xf0 → 0x90 ≤ b.toNat) ∧
      (lead.toNat = 0xf4 → b.toNat ≤ 0x8f) := by
  unfold admits
  simp only [beq_iff_eq, ← UInt8.toNat_inj, UInt8.reduceToNat]
  split
  · simp [UInt8.le_iff_toNat_le]; omega
  · split
    · simp [UInt8.le_iff_toNat_le]; omega
    · split
      · simp [UInt8.le_iff_toNat_le]; omega
      · split
        · simp [UInt8.le_iff_toNat_le]; omega
        · simp [UInt8.le_iff_toNat_le]; omega

theorem next_one {lead : UInt8} (rest : List UInt8) (h : lead.toNat ≤ 0x7f) :
    next lead rest = (.char (Char.ofNat lead.toNat), rest) := by
  unfold next
  rw [if_pos (by simp only [UInt8.lt_iff_toNat_lt, UInt8.reduceToNat]; omega)]

theorem next_two {lead b : UInt8} (rest : List UInt8) (h : 0xc2 ≤ lead.toNat ∧ lead.toNat ≤ 0xdf)
    (hb : isContinuation b = true) :
    next lead (b :: rest) =
      (.char (Char.ofNat (lead.toNat % 32 * 64 + b.toNat % 64)), rest) := by
  unfold next
  rw [if_neg (by simp only [UInt8.lt_iff_toNat_lt, UInt8.reduceToNat]; omega),
    if_pos (by simp [UInt8.le_iff_toNat_le]; omega)]
  simp only [hb, if_true, payload]

theorem next_three {lead b c : UInt8} (rest : List UInt8)
    (h : 0xe0 ≤ lead.toNat ∧ lead.toNat ≤ 0xef) (hb : admits lead b = true)
    (hc : isContinuation c = true) :
    next lead (b :: c :: rest) =
      (.char (Char.ofNat ((lead.toNat % 16 * 64 + b.toNat % 64) * 64 + c.toNat % 64)), rest) := by
  unfold next
  rw [if_neg (by simp only [UInt8.lt_iff_toNat_lt, UInt8.reduceToNat]; omega),
    if_neg (by simp [UInt8.le_iff_toNat_le]; omega),
    if_pos (by simp [UInt8.le_iff_toNat_le]; omega)]
  simp only [hb, hc, if_true, payload]

theorem next_four {lead b c d : UInt8} (rest : List UInt8)
    (h : 0xf0 ≤ lead.toNat ∧ lead.toNat ≤ 0xf4) (hb : admits lead b = true)
    (hc : isContinuation c = true) (hd : isContinuation d = true) :
    next lead (b :: c :: d :: rest) =
      (.char (Char.ofNat
        (((lead.toNat % 8 * 64 + b.toNat % 64) * 64 + c.toNat % 64) * 64 + d.toNat % 64)),
        rest) := by
  unfold next
  rw [if_neg (by simp only [UInt8.lt_iff_toNat_lt, UInt8.reduceToNat]; omega),
    if_neg (by simp [UInt8.le_iff_toNat_le]; omega),
    if_neg (by simp [UInt8.le_iff_toNat_le]; omega),
    if_pos (by simp [UInt8.le_iff_toNat_le]; omega)]
  simp only [hb, hc, hd, if_true, payload]

/-- A character is read back from its bytes, whatever stands behind them. -/
theorem decodeOnto_encodeChar (read : List Glyph) (c : Char) (rest : List UInt8) :
    decodeOnto read (String.utf8EncodeChar c ++ rest) = decodeOnto (.char c :: read) rest := by
  have hvalid := c.valid
  simp only [UInt32.isValidChar, Nat.isValidChar] at hvalid
  have hc : ∀ n, n = c.val.toNat → Char.ofNat n = c := fun n h => h ▸ Char.ofNat_toNat c
  fun_cases String.utf8EncodeChar c with
  | case1 v h =>
    have h0 : (UInt8.ofNat v).toNat = v := toNat_ofNat (by omega)
    rw [List.singleton_append, decodeOnto, next_one _ (by omega), h0, hc v rfl]
  | case2 v h1 h2 =>
    have h0 : (UInt8.ofNat (v / 64 % 32 + 192)).toNat = v / 64 % 32 + 192 := toNat_ofNat (by omega)
    have h3 : (UInt8.ofNat (v % 64 + 128)).toNat = v % 64 + 128 := toNat_ofNat (by omega)
    rw [List.cons_append, decodeOnto, List.cons_append, List.nil_append,
      next_two _ (by omega) (isContinuation_iff.mpr (by omega)), h0, h3, hc _ (by omega)]
  | case3 v h1 h2 h3 =>
    have h4 : (UInt8.ofNat (v / 4096 % 16 + 224)).toNat = v / 4096 % 16 + 224 :=
      toNat_ofNat (by omega)
    have h5 : (UInt8.ofNat (v / 64 % 64 + 128)).toNat = v / 64 % 64 + 128 := toNat_ofNat (by omega)
    have h6 : (UInt8.ofNat (v % 64 + 128)).toNat = v % 64 + 128 := toNat_ofNat (by omega)
    simp only [List.cons_append, List.nil_append]
    -- Surrogates are no characters: this is what keeps the second byte behind `ed` in bounds.
    rw [decodeOnto, next_three _ (by omega) (admits_iff.mpr (by omega))
      (isContinuation_iff.mpr (by omega)), h4, h5, h6, hc _ (by omega)]
  | case4 v h1 h2 h3 =>
    have h4 : (UInt8.ofNat (v / 262144 % 8 + 240)).toNat = v / 262144 % 8 + 240 :=
      toNat_ofNat (by omega)
    have h5 : (UInt8.ofNat (v / 4096 % 64 + 128)).toNat = v / 4096 % 64 + 128 :=
      toNat_ofNat (by omega)
    have h6 : (UInt8.ofNat (v / 64 % 64 + 128)).toNat = v / 64 % 64 + 128 := toNat_ofNat (by omega)
    have h7 : (UInt8.ofNat (v % 64 + 128)).toNat = v % 64 + 128 := toNat_ofNat (by omega)
    simp only [List.cons_append, List.nil_append]
    rw [decodeOnto, next_four _ (by omega) (admits_iff.mpr (by omega))
      (isContinuation_iff.mpr (by omega)) (isContinuation_iff.mpr (by omega)), h4, h5, h6, h7,
      hc _ (by omega)]

theorem decodeOnto_encode (read : List Glyph) (chars : List Char) :
    decodeOnto read (chars.flatMap String.utf8EncodeChar) = read.reverse ++ chars.map .char := by
  induction chars generalizing read with
  | nil => simp [decodeOnto]
  | cons c rest ih =>
    rw [List.flatMap_cons, decodeOnto_encodeChar, ih, List.reverse_cons, List.append_assoc,
      List.map_cons, List.singleton_append]

/-- A text that is written out is read back as its characters. -/
theorem decode_toUTF8 (text : String) : decode text.toUTF8.toList = text.toList.map .char := by
  rw [decode, toList_toUTF8, decodeOnto_encode, List.reverse_nil, List.nil_append]

end Utf8

/-! ## Line feeds -/

/-- The byte of the line feed is that of no other character. -/
theorem count_encodeChar (c : Char) :
    (String.utf8EncodeChar c).count 0x0a = if c = '\n' then 1 else 0 := by
  have hfeed : c = '\n' ↔ c.val.toNat = 0x0a := by
    rw [Char.ext_iff, ← UInt32.toNat_inj]
    rfl
  have hbyte : ∀ n, n < 256 → (UInt8.ofNat n = 0x0a ↔ n = 0x0a) := by
    intro n hn
    rw [← UInt8.toNat_inj, toNat_ofNat hn]
    rfl
  rw [if_congr hfeed rfl rfl]
  fun_cases String.utf8EncodeChar c with
  | case1 v h =>
    simp only [List.count_singleton, beq_iff_eq, hbyte v (by omega)]
    rfl
  | case2 v h1 h2 =>
    simp (disch := omega) only [List.count_cons, List.count_nil, beq_iff_eq, hbyte]
    split_ifs <;> omega
  | case3 v h1 h2 h3 =>
    simp (disch := omega) only [List.count_cons, List.count_nil, beq_iff_eq, hbyte]
    split_ifs <;> omega
  | case4 v h1 h2 h3 =>
    have hmax := c.valid
    simp only [UInt32.isValidChar, Nat.isValidChar] at hmax
    simp (disch := omega) only [List.count_cons, List.count_nil, beq_iff_eq, hbyte]
    split_ifs <;> omega

theorem count_encode (chars : List Char) :
    (chars.flatMap String.utf8EncodeChar).count 0x0a = chars.count '\n' := by
  induction chars with
  | nil => rfl
  | cons c rest ih =>
    rw [List.flatMap_cons, List.count_append, count_encodeChar, ih, List.count_cons, Nat.add_comm]
    simp only [beq_iff_eq]

/-! ## Order -/

/-- Numbers compare as what stands before their last digit to base 64, and then as that digit. -/
theorem lt_iff_digit_lt {v w : Nat} :
    v < w ↔ v / 64 < w / 64 ∨ v / 64 = w / 64 ∧ v % 64 < w % 64 := by
  omega

/-- The bytes of a lower character come first, whatever stands behind them. -/
theorem encodeChar_append_lt {c d : Char} (h : c < d) (s t : List UInt8) :
    String.utf8EncodeChar c ++ s < String.utf8EncodeChar d ++ t := by
  have hlt : c.val.toNat < d.val.toNat := h
  have hd := d.valid
  simp only [UInt32.isValidChar, Nat.isValidChar] at hd
  -- Four bytes against four are the one case with three digits to compare.
  have hfour : ∀ v w : Nat, v < w → v / 262144 < w / 262144 ∨ v / 262144 = w / 262144 ∧
      (v / 4096 % 64 < w / 4096 % 64 ∨ v / 4096 % 64 = w / 4096 % 64 ∧
        (v / 64 % 64 < w / 64 % 64 ∨ v / 64 % 64 = w / 64 % 64 ∧ v % 64 < w % 64)) := by
    intro v w hvw
    rw [show v / 262144 = v / 64 / 64 / 64 by omega, show v / 4096 = v / 64 / 64 by omega,
      show w / 262144 = w / 64 / 64 / 64 by omega, show w / 4096 = w / 64 / 64 by omega]
    rw [lt_iff_digit_lt, lt_iff_digit_lt (v := v / 64), lt_iff_digit_lt (v := v / 64 / 64)] at hvw
    omega
  fun_cases String.utf8EncodeChar c with
  | case4 v h1 h2 h3 =>
    fun_cases String.utf8EncodeChar d with
    | case4 w h4 h5 h6 =>
      have := hfour v w hlt
      simp (disch := omega) only [List.cons_append, List.nil_append, List.cons_lt_cons_iff,
        UInt8.lt_iff_toNat_lt, ← UInt8.toNat_inj, toNat_ofNat,
        Nat.mod_eq_of_lt (show v / 262144 < 8 by omega),
        Nat.mod_eq_of_lt (show w / 262144 < 8 by omega)]
      omega
    | _ => omega
  | _ =>
    fun_cases String.utf8EncodeChar d <;>
      simp (disch := omega) only [List.cons_append, List.nil_append, List.cons_lt_cons_iff,
        UInt8.lt_iff_toNat_lt, ← UInt8.toNat_inj, toNat_ofNat] <;> omega

theorem append_lt_append_left {l s t : List UInt8} : l ++ s < l ++ t ↔ s < t := by
  induction l with
  | nil => rfl
  | cons b l ih => rw [List.cons_append, List.cons_append, List.cons_lt_cons_iff, ih]; simp

theorem encode_lt {a b : List Char} (h : a < b) :
    a.flatMap String.utf8EncodeChar < b.flatMap String.utf8EncodeChar := by
  induction h with
  | @nil c rest =>
    obtain ⟨x, l, hx⟩ := List.exists_cons_of_ne_nil (String.utf8EncodeChar_ne_nil (c := c))
    rw [List.flatMap_cons, hx]
    exact List.nil_lt_cons ..
  | cons _ ih => rw [List.flatMap_cons, List.flatMap_cons, append_lt_append_left]; exact ih
  | rel h => rw [List.flatMap_cons, List.flatMap_cons]; exact encodeChar_append_lt h _ _

/-- Texts are ordered by their bytes as they are by their characters. -/
theorem toUTF8_lt_iff {a b : String} : a.toUTF8.toList < b.toUTF8.toList ↔ a < b := by
  have mono : ∀ {a b : String}, a < b → a.toUTF8.toList < b.toUTF8.toList := fun {a b} h => by
    rw [toList_toUTF8, toList_toUTF8]
    exact encode_lt h
  refine ⟨fun h => ?_, mono⟩
  rcases lt_trichotomy a b with hab | rfl | hba
  · exact hab
  · exact absurd h (List.lt_irrefl _)
  · exact absurd h (List.lt_asymm (mono hba))

theorem toUTF8_le_iff {a b : String} : a.toUTF8.toList ≤ b.toUTF8.toList ↔ a ≤ b :=
  not_congr toUTF8_lt_iff

end Foresight.Text
