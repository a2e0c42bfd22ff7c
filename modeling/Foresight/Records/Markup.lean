import Foresight.Failure
import Foresight.Records.Entity
import Foresight.Table
import Foresight.Text.Utf8

/-!
# Markup

Bytes cut into markup: tags, text, sections of raw text, and what is skipped. The scan is lenient. A
tag that the end of the input cuts off is taken as if it were closed there, a tag may have no name,
and a quote in a tag hides the angle brackets up to its partner. What cannot be cut ends the list
with a `fault`.

Attributes are cut out of a start tag one after the other, so a fault counts only once all
attributes before it have been read.
-/

namespace Foresight.Records

open Text

/-- A piece of markup. Names and texts are kept as they were read. -/
inductive Token where
  | text (glyphs : List Glyph)
  | rawText (glyphs : List Glyph)
  | open_ (name attributes : List Glyph)
  | selfClosing (attributes : List Glyph)
  | close (name : List Glyph)
  /-- A comment, a processing instruction, a declaration or a document type. -/
  | skipped
  | fault
  deriving DecidableEq, Inhabited

/-- The white space that separates the parts of a tag. -/
def isSpace (g : Glyph) : Bool := g.is ' ' || g.is '\t' || g.is '\n' || g.is '\r'

/-- The content of a tag up to its bracket, and the rest. `quote` is the quote that is open, and
`read` the content so far in reverse. -/
def tagOnto : (quote : Option Char) → (read : List Glyph) → List Glyph → List Glyph × List Glyph
  | _, read, [] => (read.reverse, [])
  | none, read, g :: rest =>
    if g.is '>' then (read.reverse, rest)
    else if g.is '\'' then tagOnto (some '\'') (g :: read) rest
    else if g.is '"' then tagOnto (some '"') (g :: read) rest
    else tagOnto none (g :: read) rest
  | some q, read, g :: rest =>
    if g.is q then tagOnto none (g :: read) rest else tagOnto (some q) (g :: read) rest

/-- The tag with the given content: self-closing if it ends in a slash. -/
def startTag (content : List Glyph) : Token :=
  match content.getLast? with
  | some last =>
    if last.is '/' then .selfClosing (content.dropLast.dropWhile (!isSpace ·))
    else .open_ (content.takeWhile (!isSpace ·)) (content.dropWhile (!isSpace ·))
  | none => .open_ [] []

/-- The closing tag with the given name. White space behind the name is dropped, but not the
whole of a name. -/
def endTag (name : List Glyph) : Token :=
  let trimmed := (name.reverse.dropWhile isSpace).reverse
  .close (if trimmed.isEmpty then name else trimmed)

/-- The instruction with the given content, which has to end in a question mark and to say something
before it. -/
def instruction (content : List Glyph) : Token :=
  match content.reverse with
  | last :: _ :: _ => if last.is '?' then .skipped else .fault
  | _ => .fault

/-- Up to the bracket at which `isDone` holds of what was read so far, in reverse. -/
def sectionOnto (isDone : List Glyph → Bool) : (read : List Glyph) → List Glyph →
    Option (List Glyph × List Glyph)
  | _, [] => none
  | read, g :: rest =>
    if g.is '>' && isDone read then some (read.reverse, rest)
    else sectionOnto isDone (g :: read) rest

/-- Whether glyphs begin with an ASCII word, in any letter case. -/
def beginsWithWord : (word : List Char) → List Glyph → Bool
  | [], _ => true
  | _ :: _, [] => false
  | w :: word, g :: rest => (g.is w || g.is w.toLower) && beginsWithWord word rest

/-- Whether a comment is over: what was read ends in two dashes, besides the two of its start. -/
def endsComment (read : List Glyph) : Bool :=
  4 ≤ read.length && (read.take 2).all (·.is '-')

/-- Whether raw text is over: what was read ends in two brackets. -/
def endsRawText (read : List Glyph) : Bool :=
  2 ≤ read.length && (read.take 2).all (·.is ']')

/-- Whether a document type is over: all its inner brackets are closed. -/
def endsDocumentType (read : List Glyph) : Bool :=
  read.countP (·.is '<') == read.countP (·.is '>')

def comment (content : List Glyph) : Token :=
  if beginsWithWord "--".toList content then .skipped else .fault

def rawSection (content : List Glyph) : Token :=
  if beginsWithWord "[CDATA[".toList content then .rawText (content.drop 7).dropLast.dropLast
  else .fault

/-- A document type has to say something. -/
def documentType (content : List Glyph) : Token :=
  if beginsWithWord "DOCTYPE".toList content && !(content.drop 7).all isSpace then .skipped
  else .fault

/-- The section with an end and a meaning of its content. -/
def section_ (isDone : List Glyph → Bool) (meaning : List Glyph → Token) (glyphs : List Glyph) :
    Token × List Glyph :=
  match sectionOnto isDone [] glyphs with
  | some (content, rest) => (meaning content, rest)
  | none => (.fault, [])

/-- A section that `<!` begins: a comment, raw text or a document type. -/
def bang (glyphs : List Glyph) : Token × List Glyph :=
  match glyphs with
  | [] => (.fault, [])
  | g :: _ =>
    if g.is '-' then section_ endsComment comment glyphs
    else if g.is '[' then section_ endsRawText rawSection glyphs
    else if g.is 'D' || g.is 'd' then section_ endsDocumentType documentType glyphs
    else (.fault, [])

/-- The markup that follows an opening bracket, and the rest. -/
def tag (glyphs : List Glyph) : Token × List Glyph :=
  match glyphs with
  | [] => (.skipped, [])
  | g :: rest =>
    if g.is '!' then bang rest
    else if g.is '/' then
      (endTag (rest.takeWhile (!·.is '>')), (rest.dropWhile (!·.is '>')).drop 1)
    else if g.is '?' then
      (instruction (rest.takeWhile (!·.is '>')), (rest.dropWhile (!·.is '>')).drop 1)
    else
      let (content, rest) := tagOnto none [] glyphs
      (startTag content, rest)

theorem length_tagOnto_le (quote : Option Char) (read glyphs : List Glyph) :
    (tagOnto quote read glyphs).2.length ≤ glyphs.length := by
  fun_induction tagOnto quote read glyphs <;> simp_all <;> omega

theorem length_sectionOnto_le {isDone : List Glyph → Bool} {read glyphs content rest : List Glyph}
    (h : sectionOnto isDone read glyphs = some (content, rest)) :
    rest.length ≤ glyphs.length := by
  fun_induction sectionOnto isDone read glyphs with
  | case1 => simp at h
  | case2 => simp at h; simp [← h.2]
  | case3 _ _ _ _ ih => have := ih h; simp; omega

theorem length_section_le (isDone : List Glyph → Bool) (meaning : List Glyph → Token)
    (glyphs : List Glyph) : (section_ isDone meaning glyphs).2.length ≤ glyphs.length := by
  unfold section_
  split
  · rename_i h; exact length_sectionOnto_le h
  · simp

theorem length_bang_le (glyphs : List Glyph) : (bang glyphs).2.length ≤ glyphs.length := by
  unfold bang
  split
  · simp
  · split
    · exact length_section_le ..
    · split
      · exact length_section_le ..
      · split
        · exact length_section_le ..
        · simp

theorem length_drop_dropWhile_le (p : Glyph → Bool) (glyphs : List Glyph) :
    ((glyphs.dropWhile p).drop 1).length ≤ glyphs.length := by
  have := (List.dropWhile_suffix p (l := glyphs)).length_le
  simp only [List.length_drop]
  omega

theorem length_tag_le (glyphs : List Glyph) : (tag glyphs).2.length ≤ glyphs.length := by
  unfold tag
  split
  · simp
  · rename_i g rest
    have hb := length_bang_le rest
    have hd := length_drop_dropWhile_le (!·.is '>') rest
    have ht := length_tagOnto_le none [] (g :: rest)
    split
    · simp; omega
    · split
      · simp only [List.length_cons]; omega
      · split
        · simp only [List.length_cons]; omega
        · exact ht

/-- The pieces of a document after those already cut, which are held in reverse. A fault is the
last one. -/
def tokensOnto (cut : List Token) (glyphs : List Glyph) : List Token :=
  match glyphs with
  | [] => cut.reverse
  | g :: rest =>
    if g.is '<' then
      if (tag rest).1 = .fault then (Token.fault :: cut).reverse
      else tokensOnto ((tag rest).1 :: cut) (tag rest).2
    else
      tokensOnto (.text ((g :: rest).takeWhile (!·.is '<')) :: cut) (rest.dropWhile (!·.is '<'))
  termination_by glyphs.length
  decreasing_by
    · exact Nat.lt_succ_of_le (length_tag_le rest)
    · exact Nat.lt_succ_of_le (List.dropWhile_suffix _).length_le

/-- Drops the mark of the byte order. -/
def dropByteOrderMark : List Glyph → List Glyph
  | g :: rest => if g.is '\ufeff' then rest else g :: rest
  | [] => []

def tokens (bytes : ByteArray) : List Token :=
  tokensOnto [] (dropByteOrderMark (Utf8.decode bytes.toList))

/-! ## Attributes -/

/-- What a name consists of, its first glyph apart. -/
def isNamePart (g : Glyph) : Bool := !(g.is '=' || isSpace g)

/-- The first attribute, as name, quoted value and rest; `none` at the end of the tag. -/
def nextAttribute? (glyphs : List Glyph) :
    Option (List Glyph × Option (List Glyph × List Glyph)) :=
  match glyphs.dropWhile isSpace with
  | [] => none
  | g :: rest =>
    let name := g :: rest.takeWhile isNamePart
    match (rest.dropWhile isNamePart).dropWhile isSpace with
    | [] => some (name, none)
    | equals :: rest =>
      if equals.is '=' then
        match rest.dropWhile isSpace with
        | quote :: rest =>
          if quote.is '"' || quote.is '\'' then
            match rest.dropWhile (· != quote) with
            | _ :: rest' => some (name, some (rest.takeWhile (· != quote), rest'))
            | [] => some (name, none)
          else some (name, none)
        | [] => some (name, none)
      else some (name, none)

theorem length_nextAttribute?_lt {glyphs name value rest : List Glyph}
    (h : nextAttribute? glyphs = some (name, some (value, rest))) :
    rest.length < glyphs.length := by
  have suffix : ∀ (p : Glyph → Bool) (l m : List Glyph), l.dropWhile p = m →
      m.length ≤ l.length := fun p l m e => e ▸ (List.dropWhile_suffix p).length_le
  unfold nextAttribute? at h
  split at h
  · simp at h
  · rename_i g r₁ h₁
    have l₁ := suffix _ _ _ h₁
    simp only at h
    split at h
    · simp at h
    · rename_i e r₂ h₂
      have l₂ := suffix _ _ _ h₂
      have l₂' := suffix isNamePart r₁ _ rfl
      split at h
      · split at h
        · rename_i q r₃ h₃
          have l₃ := suffix _ _ _ h₃
          split at h
          · split at h
            · rename_i c r₄ h₄
              have l₄ := suffix _ _ _ h₄
              simp only [Option.some.injEq, Prod.mk.injEq] at h
              obtain ⟨_, _, rfl⟩ := h
              simp only [List.length_cons] at *
              omega
            · simp at h
          · simp at h
        · simp at h
      · simp at h

/-- Reads the attributes of a tag into a table. A name that comes a second time or has no quoted
value is malformed; a value has to be well-formed text with known entities. -/
def readAttributes (seen : List (List Glyph)) (fields : Fields) (glyphs : List Glyph) :
    Outcome Fields :=
  match _h : nextAttribute? glyphs with
  | none => .ok fields
  | some (_, none) => .error .malformedAttribute
  | some (name, some (value, rest)) =>
    if seen.contains name then .error .malformedAttribute
    else
      match (Utf8.strict? value).bind unescape? with
      | none => .error .malformedMarkup
      | some text => readAttributes (name :: seen) (fields.insert (Utf8.lossy name) text) rest
  termination_by glyphs.length
  decreasing_by exact length_nextAttribute?_lt _h

end Foresight.Records
