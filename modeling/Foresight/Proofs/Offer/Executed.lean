import Foresight.Offer.Buffer
import Foresight.Proofs.Code.Inserted
import Foresight.Proofs.Text.Marks

/-!
# What an insertion into a buffer leaves

An invocation is filled, inserted without its marks, and the caret goes where the first mark was.
The text is written by the insertion point, while the caret is computed beside it, from an offset
and from sizes of texts. Both are read off one division of the old text here (`execute_edits`): the
caret is the size of what stands before it in the new text.
-/

namespace Foresight.Buffer

open Text Template

variable {buffer : Buffer} {invocation : Invocation} {point : InsertionPoint}

/-- The buffer after an invocation; one that is refused leaves it alone. -/
def executed (buffer : Buffer) (invocation : Invocation) (point : InsertionPoint) : Buffer :=
  match buffer.execute invocation point with
  | .ok buffer => buffer
  | .error _ => buffer

/-- The caret goes behind what precedes the first mark, or behind all there is. -/
theorem caretIn_eq {filled lead : String}
    (hlead : ((cut? endMarker filled).map Prod.fst).getD filled = lead) :
    caretIn filled (Text.replace endMarker "" filled) = lead.utf8ByteSize := by
  unfold caretIn
  cases hcut : cut? endMarker filled with
  | none =>
    rw [hcut] at hlead
    rw [replace_of_cut?_eq_none hcut, ← hlead]
    rfl
  | some parts =>
    rw [hcut] at hlead
    rw [← hlead]
    rfl

/-- The snippet begins behind what the edit opens. -/
theorem snippetStart_eq (point : InsertionPoint) :
    snippetStart point = point.offset + point.edit.opening.utf8ByteSize := by
  obtain ⟨offset, edit⟩ := point
  cases edit <;> rfl

/-- What an invocation makes of a buffer: the text before the range of the point stays, then comes
what the edit opens, the filled snippet without its marks, what the edit closes with the wrapped
text in it, and the text behind the range. The caret is where the first mark was, or at the end of
the snippet without one; that is a character boundary. -/
def Edits (old new : Buffer) (invocation : Invocation) (point : InsertionPoint) : Prop :=
  ∃ before inner after lead pieces,
    Divided old.text point.range before inner after ∧
    Marked endMarker (fill invocation) (lead :: pieces) ∧
    new.text = before ++ point.edit.opening ++ String.join (lead :: pieces) ++
      point.edit.closing inner ++ after ∧
    ∃ caret, new.caret = some caret ∧
      caret = (before ++ point.edit.opening ++ lead).utf8ByteSize ∧
      String.Pos.Raw.IsValid new.text ⟨caret⟩

/-- An invocation is refused, and text and caret stay as they are, if the range of the point does
not divide the text; otherwise it edits the buffer. -/
theorem execute_edits (buffer : Buffer) (invocation : Invocation) (point : InsertionPoint)
    (hstart : point.range.start = point.offset) :
    (∃ failure, buffer.execute invocation point = .error failure ∧
      buffer.executed invocation point = buffer ∧
      ∀ before inner after, ¬ Divided buffer.text point.range before inner after) ∨
    ∃ new, buffer.execute invocation point = .ok new ∧ buffer.executed invocation point = new ∧
      Edits buffer new invocation point := by
  have hmark : endMarker ≠ "" := by decide
  obtain ⟨lead, pieces, hmarked, hjoin, hlead⟩ := exists_marked hmark (fill invocation)
  cases happly : point.apply buffer.text (Text.replace endMarker "" (fill invocation)) with
  | none =>
    refine Or.inl ⟨_, by rw [execute, happly], by rw [executed, execute, happly], ?_⟩
    intro before inner after hdivided
    rw [InsertionPoint.apply_of_divided hdivided] at happly
    cases happly
  | some text =>
    obtain ⟨before, inner, after, hdivided, htext⟩ := InsertionPoint.apply_eq_some_iff.mp happly
    rw [hjoin] at htext
    have hcaret : snippetStart point + caretIn (fill invocation)
          (Text.replace endMarker "" (fill invocation)) =
        (before ++ point.edit.opening ++ lead).utf8ByteSize := by
      rw [snippetStart_eq, caretIn_eq hlead, ← hstart, hdivided.start, String.utf8ByteSize_append,
        String.utf8ByteSize_append]
    refine Or.inr ⟨⟨text, some _⟩, by rw [execute, happly], by rw [executed, execute, happly],
      before, inner, after, lead, pieces, hdivided, hmarked, htext, _, rfl, hcaret, ?_⟩
    refine String.Pos.Raw.isValid_iff_exists_append.mpr ⟨before ++ point.edit.opening ++ lead,
      String.join pieces ++ point.edit.closing inner ++ after, ?_, congrArg _ hcaret⟩
    rw [htext, String.join_cons]
    simp only [String.append_assoc]

/-! A statement that is wrapped, with characters of more than one byte before and behind it, and two
marks and a field in the snippet. An offset inside the first character is refused. -/

def looping : Buffer := ⟨"é if (b) f(); ü", none⟩

def greeting : Invocation :=
  ⟨"$name$: é$END$; g($END$);", Table.empty.insert "name" "list(\"é,b\")"⟩

theorem execute_edits_looping :
    Edits looping ⟨"é if (b) {é: é; g(); f(); } ü", some 17⟩ greeting ⟨10, .wrapInBlock ⟨10, 14⟩⟩ ∧
    looping.executed greeting (.direct 1) = looping := by
  constructor
  · rcases execute_edits looping greeting ⟨10, .wrapInBlock ⟨10, 14⟩⟩ rfl with
      ⟨failure, -, hsame, -⟩ | ⟨new, -, hnew, hedits⟩
    · have hchanged : looping.executed greeting ⟨10, .wrapInBlock ⟨10, 14⟩⟩ ≠ looping := by
        decide +kernel
      exact absurd hsame hchanged
    · have hvalue : looping.executed greeting ⟨10, .wrapInBlock ⟨10, 14⟩⟩ =
          ⟨"é if (b) {é: é; g(); f(); } ü", some 17⟩ := by decide +kernel
      exact hvalue ▸ hnew ▸ hedits
  · rcases execute_edits looping greeting (.direct 1) rfl with
      ⟨failure, -, hsame, -⟩ | ⟨new, hok, -, -⟩
    · exact hsame
    · have hrefused : (looping.execute greeting (.direct 1)).isOk = false := by decide +kernel
      rw [hok] at hrefused
      cases hrefused

end Foresight.Buffer
