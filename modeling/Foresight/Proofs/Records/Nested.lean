import Foresight.Proofs.Records.Elements
import Foresight.Proofs.Table
import Foresight.Proofs.Text.Encoding

/-!
# Element trees read

A document is read as the records of its element tree (`read_elementTree`), however its elements are
nested and whatever stands between them. There are two steps, and both are an induction on the tree.
The characters of a document are cut into its pieces of markup (`Document.tokens_written`): each
piece ends where its own rules say, whatever stands behind it. And reading the pieces of an element
leaves what is open as it was. What it adds depends on the depth alone: in the root, a record for
each element (`Content.steps_records`), and inside a record all the characters
(`Content.steps_inside`).

Numbers are the limit. The reader takes no more digits than the largest character needs, so a number
with zeros in front of it can be too long for it (`read_paddedDocument`).
-/

namespace Foresight.Records

open Text

/-! ## Tags -/

namespace Attribute

variable (a : Attribute)

theorem nextAttribute?_written (rest : List Glyph) :
    nextAttribute? (shown a.written ++ rest) =
      some (shown a.name.toList, some (shown (writtenPieces a.value), rest)) :=
  nextAttribute?_quoted a.gap.blank a.named a.before.blank a.after.blank a.quotes a.quoted rest

theorem quoteAfter_written : quoteAfter none (shown a.written) = some none :=
  quoteAfter_attribute a.gap.blank a.named a.before.blank a.after.blank a.quotes a.quoted

theorem head?_written (more : List Char) : ∀ c ∈ (a.written ++ more).head?, c ∈ blanks := by
  obtain ⟨b, gap, hgap⟩ := List.exists_cons_of_ne_nil a.apart
  have hb : b ∈ blanks := a.gap.blank b (hgap ▸ List.mem_cons_self)
  unfold written
  rw [hgap]
  rintro _ ⟨⟩
  exact hb

theorem getLast?_written : a.written.getLast? = some a.quote := List.getLast?_concat

end Attribute

namespace Tag

variable (t : Tag)

theorem not_mem_name {c : Char} (h : c ∈ markupChars) : c ∉ t.name := fun hc => t.named.2 c hc h

theorem not_blank_name : ∀ c ∈ t.name, c ∉ blanks :=
  fun c hc h => t.named.2 c hc (List.mem_append_left _ h)

theorem head?_behind : ∀ c ∈ t.behind.head?, c ∈ blanks := by
  unfold behind
  cases t.attributes with
  | nil => exact fun c hc => t.space.blank c (List.mem_of_mem_head? hc)
  | cons a attributes =>
    rw [List.flatMap_cons, List.append_assoc]
    exact a.head?_written _

/-- The quotes in a tag are all closed. -/
theorem quoteAfter_behind : quoteAfter none (shown t.behind) = some none := by
  have hblank : ∀ c ∈ blanks, isPlain c = true := by decide
  rw [behind, shown_append, quoteAfter_append,
    quoteAfter_flatMap fun a _ => a.quoteAfter_written, Option.bind_some,
    quoteAfter_plain fun c hc => hblank c (t.space.blank c hc)]

/-- A slash at the end of a tag would close it. -/
theorem getLast?_ne_slash : (t.name ++ t.behind).getLast? ≠ some '/' := by
  have hname : t.name.getLast? ≠ some '/' := fun h =>
    t.not_mem_name (by decide) (List.mem_of_getLast? h)
  have hquote : ∀ a ∈ t.attributes, a.written.getLast? = some a.quote ∧ a.quote ≠ '/' := by
    intro a _
    refine ⟨a.getLast?_written, ?_⟩
    rcases a.quotes with h | h
    · rw [h]; decide
    · rw [h]; decide
  have hattributes := getLast?_attributes_ne hname hquote
  unfold behind
  rw [← List.append_assoc]
  rcases List.eq_nil_or_concat t.space.chars with hnil | ⟨init, b, hconcat⟩
  · rwa [hnil, List.append_nil]
  · have hb : b ∈ blanks := t.space.blank b (by rw [hconcat]; simp)
    rw [hconcat, List.concat_eq_append, ← List.append_assoc, List.getLast?_concat]
    rintro ⟨⟩
    revert hb
    decide

/-- A tag ends at the bracket that it is written with. -/
theorem tag_named {behind : List Char} (h : quoteAfter none (shown behind) = some none)
    (rest : List Glyph) :
    tag (shown (t.name ++ behind) ++ .char '>' :: rest) =
      (startTag (shown (t.name ++ behind)), rest) := by
  have hplain : ∀ c ∈ t.name, isPlain c = true := by
    intro c hc
    have hne : ∀ d ∈ markupChars, c ≠ d := fun d hd heq => t.not_mem_name hd (heq ▸ hc)
    simp (disch := decide) [isPlain, hne]
  have hquotes : quoteAfter none (shown (t.name ++ behind)) = some none := by
    rw [shown_append, quoteAfter_append, quoteAfter_plain hplain, Option.bind_some, h]
  obtain ⟨c, chars, hname⟩ := List.exists_cons_of_ne_nil t.named.1
  have hc : c ∉ ['!', '/', '?'] := fun h =>
    t.not_mem_name ((by decide : ∀ d ∈ ['!', '/', '?'], d ∈ markupChars) c h)
      (hname ▸ List.mem_cons_self)
  rw [hname, List.cons_append] at hquotes ⊢
  exact tag_start hc hquotes rest

theorem tokens_alone (rest : List Glyph) :
    tokensOnto [] (shown t.alone ++ rest) =
      .selfClosing (shown t.behind) :: tokensOnto [] rest := by
  have hquotes : quoteAfter none (shown (t.behind ++ ['/'])) = some none := by
    rw [shown_append, quoteAfter_append, t.quoteAfter_behind, Option.bind_some]
    rfl
  have htag := t.tag_named hquotes rest
  rw [← List.append_assoc, startTag_selfClosing t.not_blank_name t.head?_behind] at htag
  have hchars : shown t.alone ++ rest =
      .char '<' :: (shown (t.name ++ t.behind ++ ['/']) ++ .char '>' :: rest) := by
    simp [alone]
  rw [hchars, tokens_tag htag (by simp)]

/-- An element is cut as its two tags and what is between them. -/
theorem tokens_around {inner : List Char} {tokens : List Token}
    (h : ∀ rest, tokensOnto [] (shown inner ++ .char '<' :: rest) =
      tokens ++ tokensOnto [] (.char '<' :: rest)) (space : Blank) (rest : List Glyph) :
    tokensOnto [] (shown (t.around inner space) ++ rest) =
      .open_ (shown t.name) (shown t.behind) :: tokens ++ .close (shown t.name) ::
        tokensOnto [] rest := by
  let closed := shown ('/' :: t.name ++ space.chars) ++ .char '>' :: rest
  have hopen := t.tag_named t.quoteAfter_behind (shown inner ++ .char '<' :: closed)
  rw [startTag_open t.not_blank_name t.head?_behind t.named.1 t.getLast?_ne_slash] at hopen
  have hclose : tag closed = (.close (shown t.name), rest) :=
    tag_close t.named.1 t.not_blank_name space.blank (t.not_mem_name (by decide)) rest
  have hchars : shown (t.around inner space) ++ rest = .char '<' ::
      (shown (t.name ++ t.behind) ++ .char '>' :: (shown inner ++ .char '<' :: closed)) := by
    simp [around, closed]
  rw [hchars, tokens_tag hopen (by simp), h, tokens_tag hclose (by simp)]
  rfl

/-- The attributes of a tag are read in their order, each as what its value means. -/
theorem readAttributes_behind (h : t.IsShort) :
    readAttributes [] .empty (shown t.behind) = .ok t.fields := by
  have hread := readAttributes_all t.space.blank t.attributes
    (fun a _ => a.nextAttribute?_written) (fun a ha => unescape?_pieces (h a ha)) t.distinct
    .empty (fun _ _ => List.not_mem_nil)
  have hfields : t.attributes.foldl (fun fields a => fields.insert a.name (meaning a.value))
      .empty = Table.ofList t.fields.entries := by
    rw [Table.ofList, fields, List.foldl_map]
  rw [Table.ofList_entries] at hfields
  exact hread.trans (congrArg Except.ok hfields)

end Tag

/-! ## Text and asides -/

/-- Text is one piece, if there is any. -/
theorem tokens_passage {chars : List Char} (h : '<' ∉ chars) {rest : List Glyph}
    (hrest : ∀ g ∈ rest.head?, g.is '<' = true) :
    tokensOnto [] (shown chars ++ rest) = textTokens chars ++ tokensOnto [] rest := by
  unfold textTokens
  split
  · rename_i hempty
    rw [hempty]
    rfl
  · rename_i hne
    exact tokens_chars hne h hrest

theorem Passage.tokens_written (t : Passage) {rest : List Glyph}
    (hrest : ∀ g ∈ rest.head?, g.is '<' = true) :
    tokensOnto [] (shown t.chars ++ rest) = t.tokens ++ tokensOnto [] rest :=
  tokens_passage t.no_bracket hrest

theorem Blank.tokens_written (b : Blank) {rest : List Glyph}
    (hrest : ∀ g ∈ rest.head?, g.is '<' = true) :
    tokensOnto [] (shown b.chars ++ rest) = b.tokens ++ tokensOnto [] rest :=
  tokens_passage (fun h => absurd (b.blank _ h) (by decide)) hrest

/-- Raw text goes on up to its end, and is what stands in between. -/
theorem RawText.tokens_written (r : RawText) (rest : List Glyph) :
    tokensOnto [] (shown r.written ++ rest) = .rawText (shown r.chars) :: tokensOnto [] rest := by
  let body := ['[', 'C', 'D', 'A', 'T', 'A', '['] ++ r.chars ++ [']', ']']
  have hsection : section_ endsRawText rawSection (shown body ++ .char '>' :: rest) =
      (rawSection (shown body), rest) := by
    refine section_written rawSection (by decide) r.no_end (fun l h => ?_)
      (endsRawText_iff.mpr ⟨_, rfl⟩) rest
    obtain ⟨init, hl⟩ := endsRawText_iff.mp h
    exact ⟨init, hl, .inr (by decide)⟩
  have hmeaning : rawSection (shown body) = .rawText (shown r.chars) := by
    have hword : beginsWithWord "[CDATA[".toList (shown body) = true := rfl
    have hdrop : (shown body).drop 7 = shown r.chars ++ [.char ']'] ++ [.char ']'] := by
      simp [body]
    rw [rawSection, if_pos hword, hdrop, List.dropLast_concat, List.dropLast_concat]
  have hchars : shown r.written ++ rest = .char '<' :: .char '!' ::
      (shown body ++ .char '>' :: rest) := by
    simp [RawText.written, body]
  rw [hmeaning] at hsection
  rw [hchars, tokens_tag ((tag_raw rfl).trans hsection) (by simp)]

/-- Comments and instructions are skipped up to their ends. -/
theorem Aside.tokens_written {a : Aside} (h : a.IsPlain) (rest : List Glyph) :
    tokensOnto [] (shown a.written ++ rest) = .skipped :: tokensOnto [] rest := by
  cases a with
  | comment chars hno =>
    let body := ['-', '-'] ++ chars ++ ['-', '-']
    have hsection : section_ endsComment Records.comment (shown body ++ .char '>' :: rest) =
        (.skipped, rest) := by
      refine section_written Records.comment (by decide) hno (fun l h => ?_)
        (endsComment_iff.mpr ⟨['-', '-'] ++ chars, by simp, rfl⟩) rest
      obtain ⟨init, hlength, hl⟩ := endsComment_iff.mp h
      exact ⟨init, hl, .inl hlength⟩
    have hchars : shown (Aside.comment chars hno).written ++ rest = .char '<' :: .char '!' ::
        (shown body ++ .char '>' :: rest) := by
      simp [written, body]
    rw [hchars, tokens_tag ((tag_comment rfl).trans hsection) (by simp)]
  | instruction chars hne hno =>
    have hchars : shown (Aside.instruction chars hne hno).written ++ rest = .char '<' ::
        .char '?' :: (shown (chars ++ ['?']) ++ .char '>' :: rest) := by
      simp [written]
    rw [hchars, tokens_tag (tag_instruction hne h rest) (by simp)]

/-! ## Cutting -/

theorem Aside.head?_written (a : Aside) : a.written.head? = some '<' := by
  cases a with
  | comment => rfl
  | instruction => rfl

theorem Root.head?_written (r : Root) : r.written.head? = some '<' := by
  cases r with
  | selfClosing => rfl
  | element => rfl

/-- Markup ends the text in front of it. -/
theorem is_of_mem_head? {chars : List Char} (h : chars.head? = some '<') (rest : List Glyph) :
    ∀ g ∈ (shown chars ++ rest).head?, g.is '<' = true := by
  obtain ⟨more, rfl⟩ := List.head?_eq_some_iff.mp h
  rintro _ ⟨⟩
  rfl

/-- What an element contains is cut into its pieces, whatever tag stands behind it. -/
theorem Content.tokens_written {c : Content} (h : c.IsPlain) (rest : List Glyph) :
    tokensOnto [] (shown c.written ++ .char '<' :: rest) =
      c.tokens ++ tokensOnto [] (.char '<' :: rest) := by
  induction c generalizing rest with
  | last text => exact text.tokens_written (by rintro _ ⟨⟩; rfl)
  | aside text a more ih =>
    rw [written, shown_append, shown_append, List.append_assoc, List.append_assoc,
      text.tokens_written (is_of_mem_head? a.head?_written _), a.tokens_written h.1, ih h.2, tokens,
      List.append_assoc]
    rfl
  | raw text r more ih =>
    rw [written, shown_append, shown_append, List.append_assoc, List.append_assoc,
      text.tokens_written (by rintro _ ⟨⟩; rfl), r.tokens_written, ih h, tokens,
      List.append_assoc]
    rfl
  | selfClosing text tag more ih =>
    rw [written, shown_append, shown_append, List.append_assoc, List.append_assoc,
      text.tokens_written (by rintro _ ⟨⟩; rfl), tag.tokens_alone, ih h, tokens,
      List.append_assoc]
    rfl
  | element text tag inner space more ihinner ihmore =>
    rw [written, shown_append, shown_append, List.append_assoc, List.append_assoc,
      text.tokens_written (by rintro _ ⟨⟩; rfl), tag.tokens_around (ihinner h.1), ihmore h.2,
      tokens]
    simp

theorem Root.tokens_written {r : Root} (h : r.IsPlain) (rest : List Glyph) :
    tokensOnto [] (shown r.written ++ rest) = r.tokens ++ tokensOnto [] rest := by
  cases r with
  | selfClosing tag => exact tag.tokens_alone rest
  | element tag content space =>
    rw [written, tag.tokens_around (content.tokens_written h), tokens, List.append_assoc]
    rfl

theorem Margin.tokens_written {m : Margin} (h : m.IsPlain) {rest : List Glyph}
    (hrest : ∀ g ∈ rest.head?, g.is '<' = true) :
    tokensOnto [] (shown m.written ++ rest) = m.tokens ++ tokensOnto [] rest := by
  have hasides : ∀ asides : List (Blank × Aside), (∀ e ∈ asides, e.2.IsPlain) → ∀ rest,
      tokensOnto [] (shown (asides.flatMap fun e => e.1.chars ++ e.2.written) ++ rest) =
        asides.flatMap (fun e => e.1.tokens ++ [.skipped]) ++ tokensOnto [] rest := by
    intro asides h rest
    induction asides with
    | nil => rfl
    | cons e asides ih =>
      obtain ⟨he, hmore⟩ := List.forall_mem_cons.mp h
      rw [List.flatMap_cons, shown_append, shown_append, List.append_assoc, List.append_assoc,
        e.1.tokens_written (is_of_mem_head? e.2.head?_written _), e.2.tokens_written he, ih hmore,
        List.flatMap_cons, List.append_assoc, List.append_assoc]
      rfl
  rw [written, shown_append, List.append_assoc, hasides m.asides h,
    m.space.tokens_written hrest, tokens, List.append_assoc]

/-! ## Documents -/

/-- No mark of the byte order is in front of some characters. -/
def IsUnmarked (chars : List Char) : Prop := ∀ c ∈ chars.head?, c ≠ '\ufeff'

theorem isUnmarked_of_head? {chars : List Char} (h : chars.head? = some '<') (more : List Char) :
    IsUnmarked (chars ++ more) := by
  obtain ⟨rest, rfl⟩ := List.head?_eq_some_iff.mp h
  rintro _ ⟨⟩
  decide

theorem Blank.isUnmarked (b : Blank) {chars : List Char} (h : IsUnmarked chars) :
    IsUnmarked (b.chars ++ chars) := by
  cases hb : b.chars with
  | nil => exact h
  | cons c more =>
    rintro _ ⟨⟩
    exact (by decide : ∀ c ∈ blanks, c ≠ '\ufeff') c (b.blank c (hb ▸ List.mem_cons_self))

theorem Margin.isUnmarked (m : Margin) {chars : List Char} (h : chars.head? = some '<') :
    IsUnmarked (m.written ++ chars) := by
  unfold written
  cases m.asides with
  | nil => exact m.space.isUnmarked (List.append_nil chars ▸ isUnmarked_of_head? h [])
  | cons e asides =>
    rw [List.flatMap_cons, List.append_assoc, List.append_assoc, List.append_assoc]
    exact e.1.isUnmarked (isUnmarked_of_head? e.2.head?_written _)

theorem dropByteOrderMark_shown {chars : List Char} (h : IsUnmarked chars) :
    dropByteOrderMark (shown chars) = shown chars := by
  cases chars with
  | nil => rfl
  | cons c chars =>
    have hc : ¬(Glyph.char c).is '\ufeff' = true := fun hmark =>
      h c rfl (is_char.mp hmark).symm
    rw [shown_cons, dropByteOrderMark, if_neg hc]

namespace Document

variable {doc : Document}

/-- Only a mark is dropped in front of a document. -/
theorem dropByteOrderMark_written (doc : Document) :
    dropByteOrderMark (shown doc.written.toList) =
      shown (doc.front.written ++ doc.root.written ++ doc.back.written) := by
  have hroot : (doc.root.written ++ doc.back.written).head? = some '<' := by
    rw [List.head?_append, doc.root.head?_written, Option.some_or]
  rw [written, String.toList_ofList, List.append_assoc, List.append_assoc,
    ← List.append_assoc doc.front.written]
  split
  · rfl
  · rw [List.nil_append, List.append_assoc]
    exact dropByteOrderMark_shown (doc.front.isUnmarked hroot)

/-- The characters of a document are cut into its pieces of markup. -/
theorem tokens_written (h : doc.IsPlain) : Records.tokens doc.written.toUTF8 = doc.tokens := by
  obtain ⟨hfront, hroot, hback⟩ := h
  have hend := doc.back.tokens_written hback (fun g hg => nomatch hg : ∀ g ∈ [].head?, _)
  rw [List.append_nil] at hend
  have hdecode : Utf8.decode doc.written.toUTF8.toList = shown doc.written.toList :=
    Utf8.decode_toUTF8 _
  rw [Records.tokens, hdecode, dropByteOrderMark_written, shown_append, shown_append,
    List.append_assoc, doc.front.tokens_written hfront (is_of_mem_head? doc.root.head?_written _),
    doc.root.tokens_written hroot, hend, Document.tokens]
  simp [tokensOnto]

end Document

/-! ## Reading -/

section Reading

variable {opened : List (List Glyph)} {record : Record} {records : List Record}

theorem plainText_pieces {pieces : List Piece} (h : ∀ p ∈ pieces, p.IsShort) :
    Reading.plainText (shown (writtenPieces pieces)) = .ok (meaning pieces) := by
  rw [Reading.plainText, strict?_shown, Option.bind_some, unescape?_pieces h]

/-- Text in a record belongs to it. -/
theorem Passage.steps_inside {t : Passage} (h : t.IsShort) (rest : List Token) :
    (t.tokens ++ rest).foldlM Reading.step ⟨opened, some record, records⟩ =
      rest.foldlM Reading.step
        ⟨opened, some { record with text := record.text ++ meaning t.pieces }, records⟩ := by
  unfold tokens textTokens
  split
  · rename_i hempty
    have hmeaning : some (meaning t.pieces) = some "" := by
      rw [← unescape?_pieces h]
      exact congrArg (fun chars => unescape? (String.ofList chars)) hempty
    rw [Option.some.inj hmeaning, String.append_empty]
    rfl
  · have hstep : Reading.step ⟨opened, some record, records⟩ (.text (shown t.chars)) =
        .ok ⟨opened, some { record with text := record.text ++ meaning t.pieces }, records⟩ := by
      simp only [Reading.step, Reading.write, chars, plainText_pieces h]
      rfl
    rw [List.singleton_append, foldlM_cons_ok hstep]

/-- Text outside of records is not looked at. -/
theorem textTokens_steps (chars : List Char) (rest : List Token) :
    (textTokens chars ++ rest).foldlM Reading.step ⟨opened, none, records⟩ =
      rest.foldlM Reading.step ⟨opened, none, records⟩ := by
  unfold textTokens
  split
  · rfl
  · rfl

/-- Whatever an element inside a record contains adds all its characters to the record. -/
theorem Content.steps_inside {c : Content} (h : c.IsShort) (hopened : 2 ≤ opened.length)
    (record : Record) (rest : List Token) :
    (c.tokens ++ rest).foldlM Reading.step ⟨opened, some record, records⟩ =
      rest.foldlM Reading.step
        ⟨opened, some { record with text := record.text ++ c.characters }, records⟩ := by
  induction c generalizing opened record rest with
  | last text => exact text.steps_inside h rest
  | aside text a more ih =>
    obtain ⟨htext, hmore⟩ := h
    rw [tokens, List.append_assoc, text.steps_inside htext, List.cons_append, foldlM_cons_ok rfl,
      ih hmore hopened, characters]
    simp only [String.append_assoc]
  | raw text r more ih =>
    obtain ⟨htext, hmore⟩ := h
    have hraw : ∀ record : Record, Reading.step ⟨opened, some record, records⟩
        (.rawText (shown r.chars)) = .ok ⟨opened,
          some { record with text := record.text ++ String.ofList r.chars }, records⟩ := by
      intro record
      simp only [Reading.step, Reading.write, lossy_shown]
      rfl
    rw [tokens, List.append_assoc, text.steps_inside htext, List.cons_append,
      foldlM_cons_ok (hraw _), ih hmore hopened, characters]
    simp only [String.append_assoc]
  | selfClosing text tag more ih =>
    obtain ⟨htext, hmore⟩ := h
    have hskip : ∀ record : Record, Reading.step ⟨opened, some record, records⟩
        (.selfClosing (shown tag.behind)) = .ok ⟨opened, some record, records⟩ :=
      fun record => if_neg (Nat.ne_of_gt hopened)
    rw [tokens, List.append_assoc, text.steps_inside htext, List.cons_append,
      foldlM_cons_ok (hskip _), ih hmore hopened, characters]
    simp only [String.append_assoc]
  | element text tag inner space more ihinner ihmore =>
    obtain ⟨htext, hinner, hmore⟩ := h
    have hopen : ∀ record : Record, Reading.step ⟨opened, some record, records⟩
        (.open_ (shown tag.name) (shown tag.behind)) =
          .ok ⟨shown tag.name :: opened, some record, records⟩ :=
      fun record => if_neg (Nat.ne_of_gt hopened)
    have hclose : ∀ record : Record, Reading.step ⟨shown tag.name :: opened, some record, records⟩
        (.close (shown tag.name)) = .ok ⟨opened, some record, records⟩ := by
      intro record
      simp only [Reading.step, if_true]
      exact if_neg (Nat.ne_of_gt hopened)
    have hdeeper : 2 ≤ (shown tag.name :: opened).length := Nat.le_succ_of_le hopened
    rw [tokens, List.append_assoc, List.append_assoc, text.steps_inside htext, List.cons_append,
      foldlM_cons_ok (hopen _), ihinner hinner hdeeper, List.cons_append,
      foldlM_cons_ok (hclose _), ihmore hmore hopened, characters]
    simp only [String.append_assoc]

/-- Each element in the root is a record with its attributes and all characters in it. -/
theorem Content.steps_records {c : Content} (h : c.HasShortRecords) (root : List Glyph)
    (records : List Record) (rest : List Token) :
    (c.tokens ++ rest).foldlM Reading.step ⟨[root], none, records⟩ =
      rest.foldlM Reading.step ⟨[root], none, c.records.reverse ++ records⟩ := by
  induction c generalizing records rest with
  | last text => exact textTokens_steps text.chars rest
  | aside text a more ih =>
    rw [tokens, List.append_assoc, Passage.tokens, textTokens_steps, List.cons_append,
      foldlM_cons_ok rfl, ih h]
    rfl
  | raw text r more ih =>
    rw [tokens, List.append_assoc, Passage.tokens, textTokens_steps, List.cons_append,
      foldlM_cons_ok rfl, ih h]
    rfl
  | selfClosing text tag more ih =>
    obtain ⟨htag, hmore⟩ := h
    have hrecord : Reading.step ⟨[root], none, records⟩ (.selfClosing (shown tag.behind)) =
        .ok ⟨[root], none, ⟨tag.fields, ""⟩ :: records⟩ := by
      simp only [Reading.step, List.length_singleton, if_true]
      rw [tag.readAttributes_behind htag]
      rfl
    rw [tokens, List.append_assoc, Passage.tokens, textTokens_steps, List.cons_append,
      foldlM_cons_ok hrecord, ih hmore, Content.records, List.reverse_cons, List.append_assoc]
    rfl
  | element text tag inner space more _ ih =>
    obtain ⟨htag, hinner, hmore⟩ := h
    have hopen : Reading.step ⟨[root], none, records⟩
        (.open_ (shown tag.name) (shown tag.behind)) =
          .ok ⟨[shown tag.name, root], some ⟨tag.fields, ""⟩, records⟩ := by
      simp only [Reading.step, List.length_singleton, if_true]
      rw [tag.readAttributes_behind htag]
      rfl
    have hclose : Reading.step
        ⟨[shown tag.name, root], some ⟨tag.fields, inner.characters⟩, records⟩
        (.close (shown tag.name)) =
          .ok ⟨[root], none, ⟨tag.fields, inner.characters⟩ :: records⟩ := by
      simp [Reading.step]
    have hdeep : 2 ≤ [shown tag.name, root].length := Nat.le_refl 2
    rw [tokens, List.append_assoc, List.append_assoc, Passage.tokens, textTokens_steps,
      List.cons_append, foldlM_cons_ok hopen, inner.steps_inside hinner hdeep,
      String.empty_append, List.cons_append, foldlM_cons_ok hclose, ih hmore, Content.records,
      List.reverse_cons, List.append_assoc]
    rfl

/-- What stands around the root says nothing. -/
theorem Margin.steps (m : Margin) (rest : List Token) :
    (m.tokens ++ rest).foldlM Reading.step ⟨opened, none, records⟩ =
      rest.foldlM Reading.step ⟨opened, none, records⟩ := by
  unfold tokens
  induction m.asides with
  | nil => exact textTokens_steps m.space.chars rest
  | cons e asides ih =>
    rw [List.flatMap_cons, List.append_assoc, List.append_assoc, List.append_assoc, Blank.tokens,
      textTokens_steps, List.singleton_append, foldlM_cons_ok rfl, ← List.append_assoc]
    exact ih

theorem Root.steps {r : Root} (h : r.HasShortRecords) (rest : List Token) :
    (r.tokens ++ rest).foldlM Reading.step .start =
      rest.foldlM Reading.step ⟨[], none, r.records.reverse⟩ := by
  cases r with
  | selfClosing tag => rfl
  | element tag content space =>
    have hopen : Reading.step .start (.open_ (shown tag.name) (shown tag.behind)) =
        .ok ⟨[shown tag.name], none, []⟩ := rfl
    have hclose : Reading.step ⟨[shown tag.name], none, content.records.reverse⟩
        (.close (shown tag.name)) = .ok ⟨[], none, content.records.reverse⟩ := by
      simp [Reading.step]
    rw [tokens, List.append_assoc, List.cons_append, foldlM_cons_ok hopen,
      content.steps_records h, List.append_nil, List.singleton_append, foldlM_cons_ok hclose]
    rfl

end Reading

/-- The pieces of a document are read as its records. -/
theorem Document.ofTokens_tokens {doc : Document} (h : doc.HasShortRecords) :
    ofTokens doc.tokens = .ok doc.records := by
  have hend : doc.back.tokens.foldlM Reading.step ⟨[], none, doc.records.reverse⟩ =
      .ok ⟨[], none, doc.records.reverse⟩ := by
    rw [← List.append_nil doc.back.tokens, doc.back.steps]
    rfl
  rw [ofTokens, Document.tokens, List.append_assoc, Reading.start, doc.front.steps]
  have hroot := doc.root.steps h doc.back.tokens
  rw [Reading.start] at hroot
  rw [hroot]
  exact (congrArg (· >>= Reading.finish) hend).trans
    (congrArg Except.ok (List.reverse_reverse doc.records))

/-- A document is read as the records of its element tree, as long as its markup is cut where it
ends. It is, unless an instruction has a bracket of its own. -/
theorem read_elementTree (doc : Document) (h : doc.HasShortRecords)
    (hcut : doc.IsPlain ∨ tokens doc.written.toUTF8 = doc.tokens) :
    Records.read doc.written.toUTF8 = .ok doc.records := by
  have htokens : tokens doc.written.toUTF8 = doc.tokens := by
    rcases hcut with hplain | htokens
    · exact Document.tokens_written hplain
    · exact htokens
  rw [Records.read, htokens]
  exact Document.ofTokens_tokens h

/-- A tag with an attribute. -/
def attributedTag : Tag where
  name := ['r']
  attributes := [⟨⟨[' '], by decide⟩, .empty, .empty, "k", '\'', [.named .lt], by decide,
    by decide, by decide, by decide⟩]
  space := .empty
  named := by decide
  distinct := by decide

/-- An element, a comment and raw text. -/
def mixedContent : Content :=
  .element ⟨[.plain 'x' (by decide)], by decide⟩ (.bare ['b'] (by decide))
    (.last ⟨[.numbered 'y' (.decimal [1, 2, 1]) (by decide) (by decide)], by decide⟩) .empty
    (.aside .empty (.comment ['n'] (by decide)) (.raw .empty ⟨['<'], by decide⟩ (.last .empty)))

/-- Two records, and text between them. -/
def nestedDocument : Document where
  marked := false
  front := .empty
  root := .element (.bare ['c'] (by decide)) (.element .empty attributedTag mixedContent .empty
    (.selfClosing ⟨[.plain 'n' (by decide)], by decide⟩ (.bare ['r'] (by decide))
      (.last .empty))) .empty
  back := .empty

theorem read_nestedDocument :
    nestedDocument.written =
      "<c><r k='&lt;'>x<b>&#121;</b><!--n--><![CDATA[<]]></r>n<r/></c>" ∧
    Records.read nestedDocument.written.toUTF8 =
      .ok [⟨.ofList [("k", "<")], "xy<"⟩, ⟨.empty, ""⟩] := by
  have hread := read_elementTree nestedDocument (by decide) (.inl (by decide))
  have hrecords : nestedDocument.records = [⟨.ofList [("k", "<")], "xy<"⟩, ⟨.empty, ""⟩] := by
    decide
  exact ⟨by decide, hrecords ▸ hread⟩

/-- A record with a number that has more digits than any character needs. -/
def paddedDocument : Document where
  marked := false
  front := .empty
  root := .element (.bare ['i'] (by decide)) (.element .empty (.bare ['i'] (by decide))
    (.last ⟨[.numbered 'A' (.decimal [0, 0, 0, 0, 0, 0, 6, 5]) (by decide) (by decide)],
      by decide⟩) .empty (.last .empty)) .empty
  back := .empty

/-- A long number is refused, though its markup is cut where it ends. -/
theorem read_paddedDocument :
    paddedDocument.written = "<i><i>&#00000065;</i></i>" ∧
    tokens paddedDocument.written.toUTF8 = paddedDocument.tokens ∧
    paddedDocument.records = [⟨.empty, "A"⟩] ∧
    Records.read paddedDocument.written.toUTF8 = .error .malformedMarkup := by
  have htokens : tokens paddedDocument.written.toUTF8 = paddedDocument.tokens :=
    Document.tokens_written (by decide)
  have hpieces : paddedDocument.tokens = [.open_ (shown ['i']) [], .open_ (shown ['i']) [],
      .text (shown "&#00000065;".toList), .close (shown ['i']), .close (shown ['i'])] := by decide
  have hroot : Reading.step .start (.open_ (shown ['i']) []) = .ok ⟨[shown ['i']], none, []⟩ := rfl
  have hopen : Reading.step ⟨[shown ['i']], none, []⟩ (.open_ (shown ['i']) []) =
      .ok ⟨[shown ['i'], shown ['i']], some ⟨.empty, ""⟩, []⟩ := by
    have hread := Tag.readAttributes_behind (.bare ['i'] (by decide)) (by decide)
    exact (congrArg (Except.map fun fields =>
      Reading.mk [shown ['i'], shown ['i']] (some ⟨fields, ""⟩) []) hread)
  refine ⟨by decide, htokens, by decide, ?_⟩
  rw [Records.read, htokens, ofTokens, hpieces, foldlM_cons_ok hroot, foldlM_cons_ok hopen]
  rfl

end Foresight.Records
