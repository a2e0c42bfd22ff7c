import Foresight.Proofs.Text.Encoding

/-!
# Texts that are cut off

Where the bytes of a text are cut off, the last character that is left may be cut in two. It is read
as an ill-formed part then, and the characters in front of it are read as they were (`Cut`,
`cut_decode`). No ASCII character can be cut in two, so a text that begins with one is cut in front
of it or behind it (`cut_cons_ascii`).
-/

namespace Foresight.Text

theorem toList_eq (bytes : ByteArray) : bytes.toList = bytes.data.toList := by
  rw [ByteArray.toList, toList_loop, List.reverse_nil, List.nil_append, List.drop_zero]

theorem length_toList (bytes : ByteArray) : bytes.toList.length = bytes.size := by
  rw [toList_eq, Array.length_toList]
  rfl

/-- The bytes in front of a cut. -/
theorem toList_extract_zero (bytes : ByteArray) (k : Nat) :
    (bytes.extract 0 k).toList = bytes.toList.take k := by
  rw [toList_eq, toList_eq, ByteArray.data_extract, Array.toList_extract, List.extract_eq_take_drop,
    List.drop_zero, Nat.sub_zero]

namespace Utf8

theorem decodeOnto_eq (read : List Glyph) (bytes : List UInt8) :
    decodeOnto read bytes = read.reverse ++ decode bytes := by
  match bytes with
  | [] => rw [decode, decodeOnto, decodeOnto, List.reverse_nil, List.append_nil]
  | lead :: rest =>
    have hrest : (next lead rest).2.length < (lead :: rest).length :=
      Nat.lt_succ_of_le (length_next_le lead rest)
    rw [decode, decodeOnto, decodeOnto, decodeOnto_eq (_ :: read), decodeOnto_eq [_],
      List.reverse_cons, List.append_assoc]
    rfl
  termination_by bytes.length
  decreasing_by
    · exact hrest
    · exact hrest

/-- Characters are read back from their bytes, whatever stands behind them. -/
theorem decode_encode_append (chars : List Char) (rest : List UInt8) :
    decode (chars.flatMap String.utf8EncodeChar ++ rest) = chars.map .char ++ decode rest := by
  induction chars with
  | nil => rfl
  | cons c chars ih =>
    rw [List.flatMap_cons, List.append_assoc, decode, decodeOnto_encodeChar, decodeOnto_eq, ih]
    rfl

/-! ## Characters that are cut in two -/

theorem next_one_of_more {lead : UInt8} (h : 0x80 ≤ lead.toNat) :
    next lead [] = (.illFormed [lead], []) := by
  unfold next
  rw [if_neg (by simp only [UInt8.lt_iff_toNat_lt, UInt8.reduceToNat]; omega)]
  simp only [ite_self]

theorem next_two_of_three {lead b : UInt8} (h : 0xe0 ≤ lead.toNat ∧ lead.toNat ≤ 0xef)
    (hb : admits lead b = true) : next lead [b] = (.illFormed [lead, b], []) := by
  unfold next
  rw [if_neg (by simp only [UInt8.lt_iff_toNat_lt, UInt8.reduceToNat]; omega),
    if_neg (by simp [UInt8.le_iff_toNat_le]; omega),
    if_pos (by simp [UInt8.le_iff_toNat_le]; omega)]
  simp only [hb, if_true]

theorem next_two_of_four {lead b : UInt8} (h : 0xf0 ≤ lead.toNat ∧ lead.toNat ≤ 0xf4)
    (hb : admits lead b = true) : next lead [b] = (.illFormed [lead, b], []) := by
  unfold next
  rw [if_neg (by simp only [UInt8.lt_iff_toNat_lt, UInt8.reduceToNat]; omega),
    if_neg (by simp [UInt8.le_iff_toNat_le]; omega),
    if_neg (by simp [UInt8.le_iff_toNat_le]; omega),
    if_pos (by simp [UInt8.le_iff_toNat_le]; omega)]
  simp only [hb, if_true]

theorem next_three_of_four {lead b c : UInt8} (h : 0xf0 ≤ lead.toNat ∧ lead.toNat ≤ 0xf4)
    (hb : admits lead b = true) (hc : isContinuation c = true) :
    next lead [b, c] = (.illFormed [lead, b, c], []) := by
  unfold next
  rw [if_neg (by simp only [UInt8.lt_iff_toNat_lt, UInt8.reduceToNat]; omega),
    if_neg (by simp [UInt8.le_iff_toNat_le]; omega),
    if_neg (by simp [UInt8.le_iff_toNat_le]; omega),
    if_pos (by simp [UInt8.le_iff_toNat_le]; omega)]
  simp only [hb, hc, if_true]

theorem decode_of_next {lead : UInt8} {rest : List UInt8} {g : Glyph}
    (h : next lead rest = (g, [])) : decode (lead :: rest) = [g] := by
  rw [decode, decodeOnto, h, decodeOnto]
  rfl

/-- The first bytes of a character, but not all of them, are no character. -/
theorem not_isWellFormed_of_take (c : Char) {k : Nat} (hk : k < (String.utf8EncodeChar c).length) :
    ∀ g ∈ decode ((String.utf8EncodeChar c).take k), g.isWellFormed = false := by
  have hvalid := c.valid
  simp only [UInt32.isValidChar, Nat.isValidChar] at hvalid
  have hnone : ∀ g ∈ decode [], g.isWellFormed = false := by
    simp [decode, decodeOnto]
  have hpart : ∀ {lead : UInt8} {rest bytes : List UInt8},
      next lead rest = (.illFormed bytes, []) →
        ∀ g ∈ decode (lead :: rest), g.isWellFormed = false := by
    intro lead rest bytes h g hg
    rw [decode_of_next h, List.mem_singleton] at hg
    rw [hg]
    rfl
  revert hk
  fun_cases String.utf8EncodeChar c with
  | case1 v h =>
    intro hk
    obtain rfl : k = 0 := Nat.lt_one_iff.mp hk
    exact hnone
  | case2 v h1 h2 =>
    have h0 : (UInt8.ofNat (v / 64 % 32 + 192)).toNat = v / 64 % 32 + 192 := toNat_ofNat (by omega)
    intro hk
    obtain _ | _ | k := k
    · exact hnone
    · exact hpart (next_one_of_more (by omega))
    · exact absurd hk (Nat.not_lt.mpr (Nat.le_add_left 2 k))
  | case3 v h1 h2 h3 =>
    have h4 : (UInt8.ofNat (v / 4096 % 16 + 224)).toNat = v / 4096 % 16 + 224 :=
      toNat_ofNat (by omega)
    have h5 : (UInt8.ofNat (v / 64 % 64 + 128)).toNat = v / 64 % 64 + 128 := toNat_ofNat (by omega)
    intro hk
    obtain _ | _ | _ | k := k
    · exact hnone
    · exact hpart (next_one_of_more (by omega))
    · exact hpart (next_two_of_three (by omega) (admits_iff.mpr (by omega)))
    · exact absurd hk (Nat.not_lt.mpr (Nat.le_add_left 3 k))
  | case4 v h1 h2 h3 =>
    have h4 : (UInt8.ofNat (v / 262144 % 8 + 240)).toNat = v / 262144 % 8 + 240 :=
      toNat_ofNat (by omega)
    have h5 : (UInt8.ofNat (v / 4096 % 64 + 128)).toNat = v / 4096 % 64 + 128 :=
      toNat_ofNat (by omega)
    have h6 : (UInt8.ofNat (v / 64 % 64 + 128)).toNat = v / 64 % 64 + 128 := toNat_ofNat (by omega)
    intro hk
    obtain _ | _ | _ | _ | k := k
    · exact hnone
    · exact hpart (next_one_of_more (by omega))
    · exact hpart (next_two_of_four (by omega) (admits_iff.mpr (by omega)))
    · exact hpart (next_three_of_four (by omega) (admits_iff.mpr (by omega))
        (isContinuation_iff.mpr (by omega)))
    · exact absurd hk (Nat.not_lt.mpr (Nat.le_add_left 4 k))

end Utf8

/-! ## Texts -/

/-- What is left of some characters when their bytes are cut off somewhere before the end. An ASCII
character is not cut in two. -/
inductive Cut : List Char → List Glyph → Prop
  | here {c : Char} {rest : List Char} {part : List Glyph}
      (hpart : ∀ g ∈ part, g.isWellFormed = false) (hascii : c.toNat < 0x80 → part = []) :
      Cut (c :: rest) part
  | later {c : Char} {rest : List Char} {glyphs : List Glyph} (h : Cut rest glyphs) :
      Cut (c :: rest) (.char c :: glyphs)

/-- The bytes of a text are cut off. -/
theorem cut_decode {chars : List Char} {k : Nat}
    (hk : k < (chars.flatMap String.utf8EncodeChar).length) :
    Cut chars (Utf8.decode ((chars.flatMap String.utf8EncodeChar).take k)) := by
  induction chars generalizing k with
  | nil => exact absurd hk (Nat.not_lt_zero k)
  | cons c rest ih =>
    rw [List.flatMap_cons, List.take_append]
    rcases Nat.lt_or_ge k (String.utf8EncodeChar c).length with hlt | hge
    · have hnone : k - (String.utf8EncodeChar c).length = 0 := by omega
      rw [hnone, List.take_zero, List.append_nil]
      refine .here (Utf8.not_isWellFormed_of_take c hlt) fun hascii => ?_
      have hlength : (String.utf8EncodeChar c).length = 1 := by
        rw [String.length_utf8EncodeChar]
        exact Char.utf8Size_eq_one_iff.mpr (Nat.le_of_lt_succ hascii)
      obtain rfl : k = 0 := by omega
      simp [Utf8.decode, Utf8.decodeOnto]
    · rw [List.take_of_length_le hge, Utf8.decode, Utf8.decodeOnto_encodeChar, Utf8.decodeOnto_eq]
      rw [List.flatMap_cons, List.length_append] at hk
      exact .later (ih (by omega))

/-- The characters in front of the cut are read as they were. -/
theorem decode_take_append (chars more : List Char) {k : Nat}
    (hk : (chars.flatMap String.utf8EncodeChar).length ≤ k) :
    Utf8.decode (((chars ++ more).flatMap String.utf8EncodeChar).take k) = chars.map .char ++
      Utf8.decode ((more.flatMap String.utf8EncodeChar).take
        (k - (chars.flatMap String.utf8EncodeChar).length)) := by
  rw [List.flatMap_append, List.take_append, List.take_of_length_le hk, Utf8.decode_encode_append]

section Cut

variable {chars more : List Char} {c : Char} {glyphs : List Glyph}

theorem cut_cons_ascii (hc : c.toNat < 0x80) (h : Cut (c :: chars) glyphs) :
    glyphs = [] ∨ ∃ rest, glyphs = .char c :: rest ∧ Cut chars rest := by
  cases h with
  | here _ hascii => exact Or.inl (hascii hc)
  | later h => exact Or.inr ⟨_, rfl, h⟩

/-- A text of two parts is cut off in the first or in the second. -/
theorem cut_append (h : Cut (chars ++ more) glyphs) :
    Cut chars glyphs ∨ ∃ rest, glyphs = chars.map .char ++ rest ∧ Cut more rest := by
  induction chars generalizing glyphs with
  | nil => exact Or.inr ⟨glyphs, rfl, h⟩
  | cons c chars ih =>
    cases h with
    | here hpart hascii => exact Or.inl (.here hpart hascii)
    | later h =>
      rcases ih h with h | ⟨rest, rfl, hrest⟩
      · exact Or.inl (.later h)
      · exact Or.inr ⟨rest, rfl, hrest⟩

/-- What is left is a part of the text from its beginning, and perhaps a part of a character. -/
theorem exists_kept_of_cut (h : Cut chars glyphs) : ∃ kept d rest part,
    chars = kept ++ d :: rest ∧ glyphs = kept.map .char ++ part ∧
      ∀ g ∈ part, g.isWellFormed = false := by
  induction h with
  | @here c rest part hpart => exact ⟨[], c, rest, part, rfl, rfl, hpart⟩
  | @later c rest glyphs _ ih =>
    obtain ⟨kept, d, more, part, rfl, rfl, hpart⟩ := ih
    exact ⟨c :: kept, d, more, part, rfl, rfl, hpart⟩

/-- No character comes out of a cut that was not in the text. -/
theorem not_is_of_cut (h : Cut chars glyphs) (hc : c ∉ chars) : ∀ g ∈ glyphs, g.is c = false := by
  have hill : ∀ g : Glyph, g.isWellFormed = false → g.is c = false := by
    intro g hg
    cases g with
    | char d => cases hg
    | illFormed bytes => rfl
  obtain ⟨kept, d, rest, part, rfl, rfl, hpart⟩ := exists_kept_of_cut h
  intro g hg
  rcases List.mem_append.mp hg with hg | hg
  · obtain ⟨e, he, rfl⟩ := List.mem_map.mp hg
    have hne : c ≠ e := fun heq => hc (heq ▸ List.mem_append_left _ he)
    simp [Glyph.is, hne]
  · exact hill g (hpart g hg)

end Cut

end Foresight.Text
