import Foresight.Proofs.Records.Cutting

/-!
# Element trees

What a document of markup consists of, whoever has written it: elements with attributes, in any
depth, and between them text, raw text, comments and instructions. Everything has two sides. It is
written in one way (`written`), with every freedom that markup leaves: white space in tags, either
quote, and characters as they are, by name or by number. And it means something, which is told
without regard to how it is written: the characters of an element are those of all text in it, and
the records of a document are the elements directly in its root (`Content.records`).

The third side is in between, the pieces of markup that a document is to be cut into (`tokens`).
-/

namespace Foresight.Records

open Text

/-! ## Characters -/

/-- The characters that have a name. -/
inductive Predefined where
  | lt | gt | amp | apos | quot
  deriving DecidableEq

namespace Predefined

def char : Predefined → Char
  | lt => '<'
  | gt => '>'
  | amp => '&'
  | apos => '\''
  | quot => '"'

def name : Predefined → String
  | lt => "lt"
  | gt => "gt"
  | amp => "amp"
  | apos => "apos"
  | quot => "quot"

end Predefined

/-- A number in either of the two bases, digit by digit. A digit beyond nine can be a capital
letter or a small one. -/
inductive Numeral where
  | decimal (digits : List (Fin 10))
  | hexadecimal (digits : List (Fin 16 × Bool))
  deriving DecidableEq

namespace Numeral

def value : Numeral → Nat
  | decimal digits => digits.foldl (fun n d => n * 10 + d.val) 0
  | hexadecimal digits => digits.foldl (fun n d => n * 16 + d.1.val) 0

def digitChar (digit : Nat) (capital : Bool) : Char :=
  if capital then (Nat.digitChar digit).toUpper else Nat.digitChar digit

def written : Numeral → List Char
  | decimal digits => '#' :: digits.map fun d => digitChar d.val false
  | hexadecimal digits => '#' :: 'x' :: digits.map fun d => digitChar d.1.val d.2

/-- No more digits than the largest character needs. -/
def IsShort : Numeral → Prop
  | decimal digits => digits.length ≤ 7
  | hexadecimal digits => digits.length ≤ 6

instance (n : Numeral) : Decidable n.IsShort := by
  cases n <;> exact inferInstanceAs (Decidable (_ ≤ _))

end Numeral

/-- One character, as it is written. -/
inductive Piece where
  | plain (c : Char) (h : c ≠ '&')
  | named (entity : Predefined)
  | numbered (c : Char) (n : Numeral) (h : n.value = c.toNat) (h' : c ≠ '\x00')
  deriving DecidableEq

namespace Piece

def char : Piece → Char
  | plain c _ => c
  | named entity => entity.char
  | numbered c _ _ _ => c

def written : Piece → List Char
  | plain c _ => [c]
  | named entity => '&' :: entity.name.toList ++ [';']
  | numbered _ n _ _ => '&' :: n.written ++ [';']

def IsShort : Piece → Prop
  | numbered _ n _ _ => n.IsShort
  | _ => True

instance (p : Piece) : Decidable p.IsShort := by
  cases p with
  | numbered c n _ _ => exact inferInstanceAs (Decidable n.IsShort)
  | _ => exact .isTrue trivial

end Piece

/-- The characters that some pieces stand for. -/
def meaning (pieces : List Piece) : String := String.ofList (pieces.map Piece.char)

def writtenPieces (pieces : List Piece) : List Char := pieces.flatMap Piece.written

/-! ### Read back -/

section Decoding

theorem foldlM_digits {α : Type} {base : Nat} {digit : α → Nat} {char : α → Char}
    (h : ∀ a, digit? base (char a) = some (digit a)) (digits : List α) (n : Nat) :
    (digits.map char).foldlM (fun n c => (digit? base c).map (n * base + ·)) n =
      some (digits.foldl (fun n a => n * base + digit a) n) := by
  induction digits generalizing n with
  | nil => rfl
  | cons a digits ih =>
    rw [List.map_cons, List.foldlM_cons, h, Option.map_some, List.foldl_cons]
    exact ih _

theorem digits?_map {α : Type} {base : Nat} {digit : α → Nat} {char : α → Char}
    (h : ∀ a, digit? base (char a) = some (digit a)) {digits : List α} (hne : digits ≠ []) :
    digits? base (digits.map char) = some (digits.foldl (fun n a => n * base + digit a) 0) := by
  obtain ⟨a, digits, rfl⟩ := List.exists_cons_of_ne_nil hne
  exact foldlM_digits h (a :: digits) 0

theorem character?_toNat {c : Char} (h : c ≠ '\x00') : character? c.toNat = some c := by
  have hzero : c.toNat ≠ 0 := fun hc => h (Char.ext (UInt32.toNat_inj.mp hc))
  have hvalid := c.valid
  simp only [UInt32.isValidChar, Nat.isValidChar] at hvalid
  unfold character?
  rw [if_neg hzero, if_pos, Char.ofNat_toNat]
  simpa using hvalid

/-- A short numeral is read as the character that it is the number of. -/
theorem entity?_numeral {n : Numeral} {c : Char} (hshort : n.IsShort) (hvalue : n.value = c.toNat)
    (hc : c ≠ '\x00') : entity? n.written = some c := by
  have hpositive : n.value ≠ 0 := fun h =>
    hc (Char.ext (UInt32.toNat_inj.mp (hvalue.symm.trans h)))
  cases n with
  | decimal digits =>
    have hne : digits ≠ [] := by
      rintro rfl
      exact hpositive rfl
    have hdigit : ∀ d : Fin 10, digit? 10 (Numeral.digitChar d.val false) = some d.val := by decide
    have hread := digits?_map hdigit hne
    obtain ⟨d, rest, rfl⟩ := List.exists_cons_of_ne_nil hne
    have hx : ∀ d : Fin 10, Numeral.digitChar d.val false ≠ 'x' := by decide
    have hlength : ¬((d :: rest).map fun d => Numeral.digitChar d.val false).length > 7 := by
      rw [List.length_map]
      exact Nat.not_lt.mpr hshort
    unfold Numeral.written entity?
    split
    · rename_i digits heq
      exact absurd (List.cons.inj (List.cons.inj heq).2).1 (hx d)
    · rename_i digits hother heq
      rw [← (List.cons.inj heq).2, if_neg hlength, hread, Option.bind_some]
      exact (congrArg character? hvalue).trans (character?_toNat hc)
    · rename_i hother
      exact absurd rfl (hother _)
  | hexadecimal digits =>
    have hne : digits ≠ [] := by
      rintro rfl
      exact hpositive rfl
    have hdigit : ∀ (d : Fin 16) (capital : Bool),
        digit? 16 (Numeral.digitChar d.val capital) = some d.val := by decide +kernel
    have hread := digits?_map (fun d : Fin 16 × Bool => hdigit d.1 d.2) hne
    have hlength : ¬(digits.map fun d => Numeral.digitChar d.1.val d.2).length > 6 := by
      rw [List.length_map]
      exact Nat.not_lt.mpr hshort
    rw [Numeral.written, entity?, if_neg hlength, hread, Option.bind_some]
    exact (congrArg character? hvalue).trans (character?_toNat hc)

/-- The name of an entity goes up to its semicolon. -/
theorem unescapeOnto_name {name : List Char} (h : ∀ c ∈ name, c ≠ ';' ∧ c ≠ '&')
    (read seen rest : List Char) {c : Char} (hentity : entity? (seen.reverse ++ name) = some c) :
    unescapeOnto read (some seen) (name ++ ';' :: rest) = unescapeOnto (c :: read) none rest := by
  induction name generalizing seen with
  | nil =>
    rw [List.append_nil] at hentity
    rw [List.nil_append, unescapeOnto, if_pos rfl, hentity]
  | cons d name ih =>
    obtain ⟨⟨hsemicolon, hamp⟩, hname⟩ := List.forall_mem_cons.mp h
    rw [List.cons_append, unescapeOnto, if_neg hsemicolon, if_neg hamp]
    refine ih hname (d :: seen) ?_
    rwa [List.reverse_cons, List.append_assoc]

/-- A piece is read as its character, whatever stands behind it. -/
theorem unescapeOnto_piece {p : Piece} (h : p.IsShort) (read rest : List Char) :
    unescapeOnto read none (p.written ++ rest) = unescapeOnto (p.char :: read) none rest := by
  have hnamed : ∀ {name : List Char} {c : Char}, (∀ d ∈ name, d ≠ ';' ∧ d ≠ '&') →
      entity? name = some c → unescapeOnto read none ('&' :: name ++ [';'] ++ rest) =
        unescapeOnto (c :: read) none rest := by
    intro name c hname hentity
    rw [List.append_assoc, List.cons_append, unescapeOnto, if_pos rfl]
    exact unescapeOnto_name hname read [] rest hentity
  cases p with
  | plain c hc => exact if_neg hc
  | named entity =>
    have hname : ∀ d ∈ entity.name.toList, d ≠ ';' ∧ d ≠ '&' := by cases entity <;> decide
    exact hnamed hname (by cases entity <;> decide)
  | numbered c n hvalue hc =>
    refine hnamed ?_ (entity?_numeral h hvalue hc)
    have hdigit : ∀ (d : Fin 16) (capital : Bool), Numeral.digitChar d.val capital ≠ ';' ∧
        Numeral.digitChar d.val capital ≠ '&' := by decide +kernel
    have hdigit' : ∀ d : Fin 10, Numeral.digitChar d.val false ≠ ';' ∧
        Numeral.digitChar d.val false ≠ '&' := by decide
    cases n with
    | decimal digits =>
      refine List.forall_mem_cons.mpr ⟨by decide, fun d hd => ?_⟩
      obtain ⟨digit, -, rfl⟩ := List.mem_map.mp hd
      exact hdigit' digit
    | hexadecimal digits =>
      refine List.forall_mem_cons.mpr ⟨by decide, List.forall_mem_cons.mpr ⟨by decide, ?_⟩⟩
      intro d hd
      obtain ⟨digit, -, rfl⟩ := List.mem_map.mp hd
      exact hdigit digit.1 digit.2

/-- Pieces are read as the characters that they stand for. -/
theorem unescape?_pieces {pieces : List Piece} (h : ∀ p ∈ pieces, p.IsShort) :
    unescape? (String.ofList (writtenPieces pieces)) = some (meaning pieces) := by
  have hread : ∀ read, unescapeOnto read none (writtenPieces pieces) =
      some (read.reverse ++ pieces.map Piece.char) := by
    induction pieces with
    | nil => exact fun read => by simp [writtenPieces, unescapeOnto]
    | cons p pieces ih =>
      obtain ⟨hp, hpieces⟩ := List.forall_mem_cons.mp h
      intro read
      have hrest := ih hpieces (p.char :: read)
      unfold writtenPieces at hrest ⊢
      rw [List.flatMap_cons, unescapeOnto_piece hp, hrest]
      simp
  rw [unescape?, String.toList_ofList, hread, Option.map_some]
  rfl

end Decoding

/-- Text between markup: it goes on up to the next bracket. -/
structure Passage where
  pieces : List Piece
  no_bracket : '<' ∉ writtenPieces pieces

/-- The piece of markup that some characters are, if there are any. -/
def textTokens (chars : List Char) : List Token :=
  if chars = [] then [] else [.text (shown chars)]

namespace Passage

def chars (t : Passage) : List Char := writtenPieces t.pieces

def tokens (t : Passage) : List Token := textTokens t.chars

/-- No text. -/
def empty : Passage := ⟨[], List.not_mem_nil⟩

/-- No number in the text has more digits than the largest character needs. -/
def IsShort (t : Passage) : Prop := ∀ p ∈ t.pieces, p.IsShort

instance (t : Passage) : Decidable t.IsShort :=
  inferInstanceAs (Decidable (∀ p ∈ t.pieces, p.IsShort))

end Passage

/-! ## Tags -/

/-- White space. -/
structure Blank where
  chars : List Char
  blank : ∀ c ∈ chars, c ∈ blanks

namespace Blank

def empty : Blank := ⟨[], nofun⟩

def tokens (b : Blank) : List Token := textTokens b.chars

end Blank

structure Attribute where
  /-- The white space in front of the attribute, and around its equals sign. -/
  gap : Blank
  before : Blank
  after : Blank
  name : String
  quote : Char
  value : List Piece
  apart : gap.chars ≠ []
  named : IsAttributeName name
  quotes : quote = '"' ∨ quote = '\''
  quoted : quote ∉ writtenPieces value

namespace Attribute

def written (a : Attribute) : List Char :=
  a.gap.chars ++ a.name.toList ++ a.before.chars ++ '=' :: a.after.chars ++
    a.quote :: writtenPieces a.value ++ [a.quote]

def IsShort (a : Attribute) : Prop := ∀ p ∈ a.value, p.IsShort

instance (a : Attribute) : Decidable a.IsShort :=
  inferInstanceAs (Decidable (∀ p ∈ a.value, p.IsShort))

end Attribute

/-- The characters that no element has in its name: white space and what markup is made of. -/
def markupChars : List Char :=
  blanks ++ ['<', '>', '&', '\'', '"', '/', '=', '!', '?']

/-- What elements may be called. -/
def IsElementName (name : List Char) : Prop := name ≠ [] ∧ ∀ c ∈ name, c ∉ markupChars

instance (name : List Char) : Decidable (IsElementName name) :=
  inferInstanceAs (Decidable (_ ∧ ∀ c ∈ name, _))

/-- The name and the attributes of an element. -/
structure Tag where
  name : List Char
  attributes : List Attribute
  /-- The white space in front of the closing bracket. -/
  space : Blank
  named : IsElementName name
  distinct : (attributes.map Attribute.name).Nodup

namespace Tag

/-- The tag without attributes. -/
def bare (name : List Char) (h : IsElementName name) : Tag := ⟨name, [], .empty, h, List.nodup_nil⟩

/-- What is written behind the name. -/
def behind (t : Tag) : List Char := t.attributes.flatMap Attribute.written ++ t.space.chars

/-- The tag as an element of its own. -/
def alone (t : Tag) : List Char := '<' :: t.name ++ t.behind ++ ['/', '>']

/-- The element with the tag, around what it contains. -/
def around (t : Tag) (inner : List Char) (space : Blank) : List Char :=
  '<' :: t.name ++ t.behind ++ '>' :: inner ++ '<' :: '/' :: t.name ++ space.chars ++ ['>']

/-- The attributes in their order, with what their values mean. -/
def fields (t : Tag) : Fields where
  entries := t.attributes.map fun a => (a.name, meaning a.value)
  nodup := by rw [List.map_map]; exact t.distinct

def IsShort (t : Tag) : Prop := ∀ a ∈ t.attributes, a.IsShort

instance (t : Tag) : Decidable t.IsShort :=
  inferInstanceAs (Decidable (∀ a ∈ t.attributes, a.IsShort))

end Tag

/-! ## Contents -/

/-- What says nothing about elements or texts. -/
inductive Aside where
  | comment (chars : List Char) (h : ¬['-', '-', '>'] <:+: chars)
  | instruction (chars : List Char) (h : chars ≠ []) (h' : ¬['?', '>'] <:+: chars)

namespace Aside

def written : Aside → List Char
  | comment chars _ => ['<', '!', '-', '-'] ++ chars ++ ['-', '-', '>']
  | instruction chars _ _ => ['<', '?'] ++ chars ++ ['?', '>']

/-- An instruction has no bracket but its own. -/
def IsPlain : Aside → Prop
  | comment _ _ => True
  | instruction chars _ _ => '>' ∉ chars

instance (a : Aside) : Decidable a.IsPlain := by
  cases a with
  | comment => exact .isTrue trivial
  | instruction chars _ _ => exact inferInstanceAs (Decidable ('>' ∉ chars))

end Aside

/-- Text that is not looked at for markup. -/
structure RawText where
  chars : List Char
  no_end : ¬[']', ']', '>'] <:+: chars

def RawText.written (r : RawText) : List Char :=
  ['<', '!', '[', 'C', 'D', 'A', 'T', 'A', '['] ++ r.chars ++ [']', ']', '>']

/-- What an element contains: text, and behind it something else and further content. -/
inductive Content where
  | last (text : Passage)
  | aside (text : Passage) (aside : Aside) (rest : Content)
  | raw (text : Passage) (raw : RawText) (rest : Content)
  | selfClosing (text : Passage) (tag : Tag) (rest : Content)
  | element (text : Passage) (tag : Tag) (inner : Content) (space : Blank) (rest : Content)

namespace Content

def written : Content → List Char
  | last text => text.chars
  | aside text a rest => text.chars ++ a.written ++ rest.written
  | raw text r rest => text.chars ++ r.written ++ rest.written
  | selfClosing text tag rest => text.chars ++ tag.alone ++ rest.written
  | element text tag inner space rest =>
    text.chars ++ tag.around inner.written space ++ rest.written

/-- All characters in an element, in their order, however deep. -/
def characters : Content → String
  | last text => meaning text.pieces
  | aside text _ rest => meaning text.pieces ++ rest.characters
  | raw text r rest => meaning text.pieces ++ String.ofList r.chars ++ rest.characters
  | selfClosing text _ rest => meaning text.pieces ++ rest.characters
  | element text _ inner _ rest => meaning text.pieces ++ inner.characters ++ rest.characters

/-- A record for each element directly inside, in their order. -/
def records : Content → List Record
  | last _ => []
  | aside _ _ rest => rest.records
  | raw _ _ rest => rest.records
  | selfClosing _ tag rest => ⟨tag.fields, ""⟩ :: rest.records
  | element _ tag inner _ rest => ⟨tag.fields, inner.characters⟩ :: rest.records

def tokens : Content → List Token
  | last text => text.tokens
  | aside text _ rest => text.tokens ++ .skipped :: rest.tokens
  | raw text r rest => text.tokens ++ .rawText (shown r.chars) :: rest.tokens
  | selfClosing text tag rest =>
    text.tokens ++ .selfClosing (shown tag.behind) :: rest.tokens
  | element text tag inner _ rest =>
    text.tokens ++ .open_ (shown tag.name) (shown tag.behind) :: inner.tokens ++
      .close (shown tag.name) :: rest.tokens

/-- No number in any of the texts has more digits than the largest character needs. -/
def IsShort : Content → Prop
  | last text => text.IsShort
  | aside text _ rest => text.IsShort ∧ rest.IsShort
  | raw text _ rest => text.IsShort ∧ rest.IsShort
  | selfClosing text _ rest => text.IsShort ∧ rest.IsShort
  | element text _ inner _ rest => text.IsShort ∧ inner.IsShort ∧ rest.IsShort

/-- Nor has any number in what the records are made of. -/
def HasShortRecords : Content → Prop
  | last _ => True
  | aside _ _ rest => rest.HasShortRecords
  | raw _ _ rest => rest.HasShortRecords
  | selfClosing _ tag rest => tag.IsShort ∧ rest.HasShortRecords
  | element _ tag inner _ rest => tag.IsShort ∧ inner.IsShort ∧ rest.HasShortRecords

def IsPlain : Content → Prop
  | last _ => True
  | aside _ a rest => a.IsPlain ∧ rest.IsPlain
  | raw _ _ rest => rest.IsPlain
  | selfClosing _ _ rest => rest.IsPlain
  | element _ _ inner _ rest => inner.IsPlain ∧ rest.IsPlain

instance decidableIsShort : (c : Content) → Decidable c.IsShort
  | last text => inferInstanceAs (Decidable text.IsShort)
  | aside text _ rest | raw text _ rest | selfClosing text _ rest =>
    have := decidableIsShort rest
    inferInstanceAs (Decidable (text.IsShort ∧ rest.IsShort))
  | element text _ inner _ rest =>
    have := decidableIsShort inner
    have := decidableIsShort rest
    inferInstanceAs (Decidable (text.IsShort ∧ inner.IsShort ∧ rest.IsShort))

instance decidableHasShortRecords : (c : Content) → Decidable c.HasShortRecords
  | last _ => .isTrue trivial
  | aside _ _ rest | raw _ _ rest => decidableHasShortRecords rest
  | selfClosing _ tag rest =>
    have := decidableHasShortRecords rest
    inferInstanceAs (Decidable (tag.IsShort ∧ rest.HasShortRecords))
  | element _ tag inner _ rest =>
    have := decidableHasShortRecords rest
    inferInstanceAs (Decidable (tag.IsShort ∧ inner.IsShort ∧ rest.HasShortRecords))

instance decidableIsPlain : (c : Content) → Decidable c.IsPlain
  | last _ => .isTrue trivial
  | aside _ a rest =>
    have := decidableIsPlain rest
    inferInstanceAs (Decidable (a.IsPlain ∧ rest.IsPlain))
  | raw _ _ rest | selfClosing _ _ rest => decidableIsPlain rest
  | element _ _ inner _ rest =>
    have := decidableIsPlain inner
    have := decidableIsPlain rest
    inferInstanceAs (Decidable (inner.IsPlain ∧ rest.IsPlain))

end Content

/-! ## Documents -/

/-- What stands in front of the root, or behind it. -/
structure Margin where
  asides : List (Blank × Aside)
  space : Blank

namespace Margin

def written (m : Margin) : List Char :=
  m.asides.flatMap (fun e => e.1.chars ++ e.2.written) ++ m.space.chars

def tokens (m : Margin) : List Token :=
  m.asides.flatMap (fun e => e.1.tokens ++ [.skipped]) ++ m.space.tokens

def IsPlain (m : Margin) : Prop := ∀ e ∈ m.asides, e.2.IsPlain

instance (m : Margin) : Decidable m.IsPlain :=
  inferInstanceAs (Decidable (∀ e ∈ m.asides, e.2.IsPlain))

def empty : Margin := ⟨[], .empty⟩

end Margin

inductive Root where
  | selfClosing (tag : Tag)
  | element (tag : Tag) (content : Content) (space : Blank)

namespace Root

def written : Root → List Char
  | selfClosing tag => tag.alone
  | element tag content space => tag.around content.written space

def records : Root → List Record
  | selfClosing _ => []
  | element _ content _ => content.records

def tokens : Root → List Token
  | selfClosing tag => [.selfClosing (shown tag.behind)]
  | element tag content _ =>
    .open_ (shown tag.name) (shown tag.behind) :: content.tokens ++ [.close (shown tag.name)]

def HasShortRecords : Root → Prop
  | selfClosing _ => True
  | element _ content _ => content.HasShortRecords

def IsPlain : Root → Prop
  | selfClosing _ => True
  | element _ content _ => content.IsPlain

instance (r : Root) : Decidable r.HasShortRecords :=
  match r with
  | selfClosing _ => .isTrue trivial
  | element _ content _ => inferInstanceAs (Decidable content.HasShortRecords)

instance (r : Root) : Decidable r.IsPlain :=
  match r with
  | selfClosing _ => .isTrue trivial
  | element _ content _ => inferInstanceAs (Decidable content.IsPlain)

end Root

structure Document where
  /-- Whether the document begins with the mark of the byte order. -/
  marked : Bool
  front : Margin
  root : Root
  back : Margin

namespace Document

def written (doc : Document) : String :=
  String.ofList ((if doc.marked then ['\ufeff'] else []) ++ doc.front.written ++
    doc.root.written ++ doc.back.written)

/-- The records that a document holds. -/
def records (doc : Document) : List Record := doc.root.records

/-- The pieces of markup that a document consists of. -/
def tokens (doc : Document) : List Token :=
  doc.front.tokens ++ doc.root.tokens ++ doc.back.tokens

/-- No number in a record has more digits than the largest character needs. -/
def HasShortRecords (doc : Document) : Prop := doc.root.HasShortRecords

/-- No instruction has a bracket but its own. -/
def IsPlain (doc : Document) : Prop :=
  doc.front.IsPlain ∧ doc.root.IsPlain ∧ doc.back.IsPlain

instance (doc : Document) : Decidable doc.HasShortRecords :=
  inferInstanceAs (Decidable doc.root.HasShortRecords)

instance (doc : Document) : Decidable doc.IsPlain :=
  inferInstanceAs (Decidable (_ ∧ _ ∧ _))

end Document

end Foresight.Records
