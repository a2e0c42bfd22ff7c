import Foresight.Text.Cut

/-!
# Slices of a text

A slice is a piece between two others, found at its byte offsets (`slice?_eq_some_iff`). So it is
found again wherever more text is added behind.
-/

namespace Foresight.Text

theorem utf8ByteSize_le_append (a b : String) : a.utf8ByteSize ≤ (a ++ b).utf8ByteSize := by
  rw [String.utf8ByteSize_append]
  exact Nat.le_add_right ..

/-- A piece between two others is found at its byte offsets. -/
theorem slice?_append (before piece after : String) :
    slice? (before ++ piece ++ after) before.utf8ByteSize (before ++ piece).utf8ByteSize =
      some piece := by
  have hstart : String.Pos.Raw.IsValid (before ++ piece ++ after) ⟨before.utf8ByteSize⟩ :=
    String.Pos.Raw.isValid_iff_exists_append.mpr
      ⟨before, piece ++ after, String.append_assoc, rfl⟩
  have hstop : String.Pos.Raw.IsValid (before ++ piece ++ after) ⟨(before ++ piece).utf8ByteSize⟩ :=
    String.Pos.Raw.isValid_iff_exists_append.mpr ⟨before ++ piece, after, rfl, rfl⟩
  have hle : before.utf8ByteSize ≤ (before ++ piece).utf8ByteSize := utf8ByteSize_le_append ..
  rw [slice?, if_pos hle, dif_pos hstart, dif_pos hstop, Option.some.injEq,
    ← String.toByteArray_inj, String.toByteArray_extract]
  simp only [String.toByteArray_append, ByteArray.append_assoc, String.utf8ByteSize_append]
  have hpiece := ByteArray.extract_append_size_add (i := 0) (j := piece.utf8ByteSize)
    (a := before.toByteArray) (b := piece.toByteArray ++ after.toByteArray)
  rw [String.size_toByteArray, Nat.add_zero] at hpiece
  rw [hpiece, ByteArray.extract_append_eq_left String.size_toByteArray.symm]

theorem slice?_eq_some_iff {text piece : String} {start stop : Nat} :
    slice? text start stop = some piece ↔ ∃ before after, text = before ++ piece ++ after ∧
      start = before.utf8ByteSize ∧ stop = (before ++ piece).utf8ByteSize := by
  constructor
  · intro h
    unfold slice? at h
    split at h
    · rename_i hle
      split at h
      · rename_i hstart
        split at h
        · rename_i hstop
          obtain ⟨before, rest, htext, hbefore⟩ :=
            String.Pos.Raw.isValid_iff_exists_append.mp hstart
          obtain ⟨whole, after, htext', hwhole⟩ :=
            String.Pos.Raw.isValid_iff_exists_append.mp hstop
          obtain rfl : start = before.utf8ByteSize := congrArg String.Pos.Raw.byteIdx hbefore
          obtain rfl : stop = whole.utf8ByteSize := congrArg String.Pos.Raw.byteIdx hwhole
          have hleft : text.toByteArray.extract 0 before.utf8ByteSize = before.toByteArray := by
            rw [htext, String.toByteArray_append]
            exact ByteArray.extract_append_eq_left String.size_toByteArray.symm
          have hright : text.toByteArray.extract 0 whole.utf8ByteSize = whole.toByteArray := by
            rw [htext', String.toByteArray_append]
            exact ByteArray.extract_append_eq_left String.size_toByteArray.symm
          -- The slice is what the longer of the two has behind the shorter one.
          have hwhole : whole = before ++ piece := by
            rw [← Option.some.inj h, ← String.toByteArray_inj, String.toByteArray_append,
              String.toByteArray_extract, ← hleft, ← hright, ByteArray.extract_append_extract,
              Nat.min_eq_left (Nat.zero_le _), Nat.max_eq_right hle]
          exact ⟨before, after, hwhole ▸ htext', rfl, hwhole ▸ rfl⟩
        · cases h
      · cases h
    · cases h
  · rintro ⟨before, after, rfl, rfl, rfl⟩
    exact slice?_append before piece after

/-- Two offsets make a slice exactly if they are character boundaries in order. -/
theorem exists_slice?_iff {text : String} {start stop : Nat} :
    (∃ piece, slice? text start stop = some piece) ↔
      start ≤ stop ∧ String.Pos.Raw.IsValid text ⟨start⟩ ∧ String.Pos.Raw.IsValid text ⟨stop⟩ := by
  constructor
  · rintro ⟨piece, h⟩
    obtain ⟨before, after, rfl, rfl, rfl⟩ := slice?_eq_some_iff.mp h
    exact ⟨utf8ByteSize_le_append before piece,
      String.Pos.Raw.isValid_iff_exists_append.mpr
        ⟨before, piece ++ after, String.append_assoc, rfl⟩,
      String.Pos.Raw.isValid_iff_exists_append.mpr ⟨before ++ piece, after, rfl, rfl⟩⟩
  · rintro ⟨hle, hstart, hstop⟩
    rw [slice?, if_pos hle, dif_pos hstart, dif_pos hstop]
    exact ⟨_, rfl⟩

/-- A slice that begins with some text is that text as far as it goes. -/
theorem slice?_lead {text lead rest : String} {start stop : Nat}
    (h : slice? text start stop = some (lead ++ rest)) :
    slice? text start (start + lead.utf8ByteSize) = some lead := by
  obtain ⟨before, after, rfl, rfl, -⟩ := slice?_eq_some_iff.mp h
  exact slice?_eq_some_iff.mpr ⟨before, rest ++ after, by simp only [String.append_assoc], rfl,
    String.utf8ByteSize_append.symm⟩

/-- At a character boundary there is the empty slice. -/
theorem slice?_point {text : String} {offset : Nat} (h : String.Pos.Raw.IsValid text ⟨offset⟩) :
    slice? text offset offset = some "" := by
  obtain ⟨before, after, rfl, hoffset⟩ := String.Pos.Raw.isValid_iff_exists_append.mp h
  obtain rfl : offset = before.utf8ByteSize := congrArg String.Pos.Raw.byteIdx hoffset
  exact slice?_eq_some_iff.mpr ⟨before, after, by simp, rfl, by simp⟩

/-- A slice does not see what stands behind it. -/
theorem slice?_append_right {text piece : String} {start stop : Nat}
    (h : slice? text start stop = some piece) (more : String) :
    slice? (text ++ more) start stop = some piece := by
  obtain ⟨before, after, rfl, rfl, rfl⟩ := slice?_eq_some_iff.mp h
  exact slice?_eq_some_iff.mpr ⟨before, after ++ more, String.append_assoc, rfl, rfl⟩

end Foresight.Text
