import Foresight.Code.Lookup
import Foresight.Proofs.Text.Pieces
import Foresight.Proofs.Text.Truncated

/-!
# Carets and lines

A caret is put at a line and a column, and a source file counts the line feeds among the bytes in
front of an offset. Both speak of a line as it stands in the text (`IsLine`). The pieces between
line feeds are the lines in their order (`exists_isLine`), and a character holds the byte of the
line feed only if it is one (`count_encode`), so the line of a caret's offset is the line that was
asked for.
-/

namespace Foresight

open Text

/-! ## Lengths in bytes -/

theorem byteLength_append (chars more : List Char) :
    byteLength (chars ++ more) = byteLength chars + byteLength more := by
  rw [byteLength, String.ofList_append, String.utf8ByteSize_append]
  rfl

theorem byteLength_eq (chars : List Char) :
    byteLength chars = (chars.flatMap String.utf8EncodeChar).length := by
  have hbytes := toList_toUTF8 (String.ofList chars)
  rw [String.toList_ofList] at hbytes
  rw [← hbytes, length_toList]
  rfl

/-! ## Lines -/

/-- A line of a text, counted from 1, with what stands in front of it and behind it. -/
structure IsLine (text : List Char) (number : Nat) (before line after : List Char) : Prop where
  eq_append : text = before ++ line ++ after
  number_eq : number = before.count '\n' + 1
  begins : ∀ c ∈ before.getLast?, c = '\n'
  inside : '\n' ∉ line
  ends : ∀ c ∈ after.head?, c = '\n'

theorem exists_isLine {text line : List Char} {n : Nat}
    (h : (pieces (· == '\n') text)[n]? = some line) :
    ∃ before after, IsLine text (n + 1) before line after ∧
      ∀ size, ((pieces (· == '\n') text).take n).foldr
        (fun l offset => byteLength l + 1 + offset) size = byteLength before + size := by
  induction n generalizing text with
  | zero =>
    obtain ⟨first, more, hpieces⟩ := exists_pieces_eq (p := (· == '\n')) text
    obtain ⟨hfirst, hends⟩ := of_pieces_eq_cons hpieces
    rw [hpieces] at h
    obtain rfl := Option.some.inj h
    have hfree : '\n' ∉ first := fun hmem => by simpa using hfirst _ hmem
    rcases hends with ⟨-, rfl⟩ | ⟨s, rest, hs, rfl, -⟩
    · exact ⟨[], [], ⟨by simp, rfl, nofun, hfree, nofun⟩, fun size => by simp [byteLength]⟩
    · refine ⟨[], s :: rest, ⟨by simp, rfl, nofun, hfree, ?_⟩, fun size => by simp [byteLength]⟩
      simpa using hs
  | succ n ih =>
    obtain ⟨first, more, hpieces⟩ := exists_pieces_eq (p := (· == '\n')) text
    obtain ⟨hfirst, hends⟩ := of_pieces_eq_cons hpieces
    rw [hpieces] at h
    have hfree : '\n' ∉ first := fun hmem => by simpa using hfirst _ hmem
    rcases hends with ⟨rfl, -⟩ | ⟨s, rest, hs, rfl, rfl⟩
    · cases h
    · obtain rfl : s = '\n' := by simpa using hs
      obtain ⟨before, after, hline, hsize⟩ := ih h
      refine ⟨first ++ '\n' :: before, after, ⟨?_, ?_, ?_, hline.inside, hline.ends⟩,
        fun size => ?_⟩
      · rw [hline.eq_append]
        simp
      · rw [hline.number_eq, List.count_append, List.count_cons_self, List.count_eq_zero.mpr hfree,
          Nat.zero_add]
      · cases hbefore : before with
        | nil => simp
        | cons c rest =>
          have hbegins := hline.begins
          rw [hbefore] at hbegins
          rwa [List.getLast?_append_cons, List.getLast?_cons_cons]
      · have hbreak : byteLength ('\n' :: before) = 1 + byteLength before :=
          byteLength_append ['\n'] before
        rw [hpieces, List.take_succ_cons, List.foldr_cons, hsize, byteLength_append, hbreak]
        omega

/-- The line of an offset is told by the characters in front of it. -/
theorem lineOf_byteLength {file : SourceFile} {lead rest : List Char}
    (h : file.text.toList = lead ++ rest) :
    file.lineOf (byteLength lead) = lead.count '\n' + 1 := by
  rw [SourceFile.lineOf, SourceFile.lineFeeds, toList_toUTF8, h, List.flatMap_append,
    List.take_left' (byteLength_eq lead).symm, count_encode]

/-- A caret has no offset exactly if the text has too few lines, or the line is counted from 0.
Otherwise its offset is a character boundary in the line that was asked for, with as many characters
of the line in front of it as the column says, or all of them. -/
theorem caretOffset?_in_line (file : SourceFile) (line column : Nat) :
    (caretOffset? file.text line column = none ↔
      line = 0 ∨ file.text.toList.count '\n' < line - 1) ∧
    ∀ offset, caretOffset? file.text line column = some offset →
      String.Pos.Raw.IsValid file.text ⟨offset⟩ ∧ file.lineOf offset = line ∧
      ∃ before within beyond after,
        IsLine file.text.toList line before (within ++ beyond) after ∧
        offset = byteLength (before ++ within) ∧
        within.length = min (max column 1 - 1) (within ++ beyond).length := by
  have hlength : (pieces (· == '\n') file.text.toList).length = file.text.toList.count '\n' + 1 :=
    length_pieces _
  constructor
  · unfold caretOffset?
    split
    · rename_i hzero
      simp [hzero]
    · rename_i hline
      rw [Option.map_eq_none_iff, List.getElem?_eq_none_iff, hlength, or_iff_right hline]
      omega
  · intro offset hoffset
    unfold caretOffset? at hoffset
    split at hoffset
    · cases hoffset
    · rename_i hline
      obtain ⟨found, hfound, rfl⟩ := Option.map_eq_some_iff.mp hoffset
      obtain ⟨before, after, hisLine, hsize⟩ := exists_isLine hfound
      rw [hsize, ← byteLength_append]
      rw [Nat.sub_add_cancel (Nat.one_le_iff_ne_zero.mpr hline)] at hisLine
      have htext : file.text.toList =
          before ++ found.take (column - 1) ++ (found.drop (column - 1) ++ after) := by
        rw [hisLine.eq_append, List.append_assoc, List.append_assoc,
          ← List.append_assoc (found.take _), List.take_append_drop]
      have hnone : '\n' ∉ found.take (column - 1) := fun hmem =>
        hisLine.inside (List.mem_of_mem_take hmem)
      refine ⟨?_, ?_, before, found.take (column - 1), found.drop (column - 1), after, ?_, rfl, ?_⟩
      · refine String.Pos.Raw.isValid_iff_exists_append.mpr
          ⟨String.ofList (before ++ found.take (column - 1)),
            String.ofList (found.drop (column - 1) ++ after), ?_, rfl⟩
        rw [← String.ofList_append, ← htext, String.ofList_toList]
      · rw [lineOf_byteLength htext, List.count_append, List.count_eq_zero.mpr hnone,
          hisLine.number_eq]
      · rwa [List.take_append_drop]
      · rw [List.take_append_drop, List.length_take]
        omega

/-- A column behind the end of a line with a character of two bytes, in front of an empty line. -/
theorem caretOffset?_in_line_accent :
    caretOffset? (SourceFile.new "A.cs" "ab\n    é;\n").text 2 40 = some 10 ∧
      String.Pos.Raw.IsValid (SourceFile.new "A.cs" "ab\n    é;\n").text ⟨10⟩ ∧
      (SourceFile.new "A.cs" "ab\n    é;\n").lineOf 10 = 2 ∧
      ∃ before within beyond after,
        IsLine (SourceFile.new "A.cs" "ab\n    é;\n").text.toList 2 before (within ++ beyond)
          after ∧
        10 = byteLength (before ++ within) ∧
        within.length = min (max 40 1 - 1) (within ++ beyond).length := by
  have hoffset : caretOffset? (SourceFile.new "A.cs" "ab\n    é;\n").text 2 40 = some 10 := by
    decide +kernel
  exact ⟨hoffset, (caretOffset?_in_line _ 2 40).2 10 hoffset⟩

end Foresight
