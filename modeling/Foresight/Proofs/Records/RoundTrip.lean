import Foresight.Proofs.Records.Cutting
import Foresight.Proofs.Records.Fields

/-!
# Documents read back

A document of records is read back as the records it was made of (`read_documentText`). The writer
gives characters and the reader takes glyphs, so the document is followed as the glyphs of its
characters (`shown`), from the outside in: the pieces of markup of a whole document, then the
content of a start tag, then the attributes in it. Quotes hide everything that would end a tag, and
what is written between quotes has been escaped, so no piece can end too early.
-/

namespace Foresight.Records

open Text

/-- The characters of an attribute as it is written. -/
def attributeChars (a : String × String) : List Char :=
  ' ' :: a.1.toList ++ '=' :: '"' :: (escape a.2).toList ++ ['"']

theorem toList_attributeText (a : String × String) :
    (attributeText a).toList = attributeChars a := by
  simp [attributeText, attributeChars, String.toList_append]

/-! ## Attributes -/

section Attributes

variable {a : String × String}

theorem attributeChars_eq (a : String × String) : attributeChars a =
    [' '] ++ a.1.toList ++ [] ++ '=' :: [] ++ '"' :: (escape a.2).toList ++ ['"'] := by
  simp [attributeChars]

theorem nextAttribute?_attributeChars (h : IsAttributeName a.1) (rest : List Glyph) :
    nextAttribute? (shown (attributeChars a) ++ rest) =
      some (shown a.1.toList, some (shown (escape a.2).toList, rest)) := by
  have hblank : ∀ c ∈ [' '], c ∈ blanks := by decide
  rw [attributeChars_eq]
  exact nextAttribute?_quoted hblank h (by simp) (by simp) (.inl rfl)
    (not_mem_escape a.2).2.2.2 rest

/-- Attributes are read back in their order. -/
theorem readAttributes_written {attributes : List (String × String)}
    (hname : ∀ a ∈ attributes, IsAttributeName a.1) (hnodup : (attributes.map Prod.fst).Nodup) :
    readAttributes [] .empty (shown (attributes.flatMap attributeChars)) =
      .ok (.ofList attributes) := by
  have hseen : ∀ a ∈ attributes, shown a.1.toList ∉ ([] : List (List Glyph)) :=
    fun _ _ => List.not_mem_nil
  have hread := readAttributes_all (by simp : ∀ c ∈ [], c ∈ blanks) attributes
    (fun a ha rest => nextAttribute?_attributeChars (hname a ha) rest)
    (fun a _ => by rw [String.ofList_toList, unescape?_escape]) hnodup .empty hseen
  rwa [List.append_nil] at hread

end Attributes

/-! ## Tags -/

theorem quoteAfter_attributeChars {a : String × String} (h : IsAttributeName a.1) :
    quoteAfter none (shown (attributeChars a)) = some none := by
  have hblank : ∀ c ∈ [' '], c ∈ blanks := by decide
  rw [attributeChars_eq]
  exact quoteAfter_attribute hblank h (by simp) (by simp) (.inl rfl) (not_mem_escape a.2).2.2.2

/-- A written start tag goes on up to its bracket. -/
theorem quoteAfter_content {attributes : List (String × String)}
    (h : ∀ a ∈ attributes, IsAttributeName a.1) :
    quoteAfter none (shown ('i' :: attributes.flatMap attributeChars)) = some none := by
  have hi : ∀ c ∈ ['i'], isPlain c = true := List.forall_mem_singleton.mpr (by decide)
  rw [← List.singleton_append, shown_append, quoteAfter_append, quoteAfter_plain hi,
    Option.bind_some, quoteAfter_flatMap fun a ha => quoteAfter_attributeChars (h a ha)]

/-- A written start tag does not end in a slash. -/
theorem getLast?_attributes (attributes : List (String × String)) :
    ('i' :: attributes.flatMap attributeChars).getLast? ≠ some '/' :=
  have hquote : ∀ a ∈ attributes, (attributeChars a).getLast? = some '"' ∧ '"' ≠ '/' :=
    fun a _ => ⟨List.getLast?_concat, by decide⟩
  getLast?_attributes_ne (by decide : ['i'].getLast? ≠ some '/') hquote

/-- What a written start tag says. -/
theorem tag_open {attributes : List (String × String)} (h : ∀ a ∈ attributes, IsAttributeName a.1)
    (rest : List Glyph) :
    tag (shown ('i' :: attributes.flatMap attributeChars) ++ .char '>' :: rest) =
      (.open_ (shown ['i']) (shown (attributes.flatMap attributeChars)), rest) := by
  have hname : ∀ c ∈ ['i'], c ∉ blanks := by decide
  have hbehind : ∀ c ∈ (attributes.flatMap attributeChars).head?, c ∈ blanks := by
    cases attributes with
    | nil => exact nofun
    | cons a rest =>
      rintro _ ⟨⟩
      decide
  rw [tag_start (by decide) (quoteAfter_content h), ← List.singleton_append,
    startTag_open hname hbehind (List.cons_ne_nil _ _) (getLast?_attributes attributes)]

theorem tag_close_written (rest : List Glyph) :
    tag (shown ['/', 'i', '>'] ++ rest) = (.close (shown ['i']), rest) :=
  tag_close (List.cons_ne_nil 'i' []) (by decide) (by simp : ∀ c ∈ [], c ∈ blanks) (by decide) rest

/-! ## Documents -/

/-- The characters of a record as it is written. -/
def recordChars (r : List (String × String) × String) : List Char :=
  "\n  ".toList ++ '<' :: 'i' :: r.1.flatMap attributeChars ++ '>' :: (escape r.2).toList ++
    "</i>".toList

/-- The pieces of markup of a record. -/
def recordTokens (r : List (String × String) × String) : List Token :=
  [.text (shown "\n  ".toList), .open_ (shown ['i']) (shown (r.1.flatMap attributeChars))] ++
    (if r.2 = "" then [] else [.text (shown (escape r.2).toList)]) ++ [.close (shown ['i'])]

theorem escapeChar_ne_nil (c : Char) : escapeChar c ≠ [] := by
  unfold escapeChar
  split <;> simp

theorem escape_eq_nil_iff {text : String} : (escape text).toList = [] ↔ text = "" := by
  rw [escape, String.toList_ofList, List.flatMap_eq_nil_iff]
  constructor
  · intro h
    refine String.toList_inj.mp (List.eq_nil_iff_forall_not_mem.mpr fun c hc => ?_)
    exact escapeChar_ne_nil c (h c hc)
  · rintro rfl
    simp

theorem toList_recordText (r : List (String × String) × String) :
    (recordText r.1 r.2).toList = recordChars r := by
  have hattributes : (String.join (r.1.map attributeText)).toList = r.1.flatMap attributeChars := by
    rw [String.toList_join, List.flatMap_map]
    exact List.flatMap_congr fun a _ => toList_attributeText a
  simp [recordText, recordChars, elementName, String.toList_append, hattributes]

theorem tokens_record {r : List (String × String) × String} (h : ∀ a ∈ r.1, IsAttributeName a.1)
    (rest : List Glyph) :
    tokensOnto [] (shown (recordChars r) ++ rest) = recordTokens r ++ tokensOnto [] rest := by
  have hchars : shown (recordChars r) ++ rest = shown "\n  ".toList ++ .char '<' ::
      (shown ('i' :: r.1.flatMap attributeChars) ++ .char '>' ::
        (shown (escape r.2).toList ++ .char '<' :: (shown ['/', 'i', '>'] ++ rest))) := by
    simp [recordChars]
  rw [hchars, tokens_text (by decide) (by decide), tokens_tag (tag_open h _) (by simp),
    recordTokens]
  by_cases hempty : r.2 = ""
  · rw [if_pos hempty, escape_eq_nil_iff.mpr hempty, shown_nil, List.nil_append,
      tokens_tag (tag_close_written rest) (by simp)]
    rfl
  · have hwritten : (escape r.2).toList ≠ [] := fun h => hempty (escape_eq_nil_iff.mp h)
    rw [if_neg hempty, tokens_text hwritten (not_mem_escape r.2).1,
      tokens_tag (tag_close_written rest) (by simp)]
    rfl

theorem tokens_records {records : List (List (String × String) × String)}
    (h : ∀ r ∈ records, ∀ a ∈ r.1, IsAttributeName a.1) (rest : List Glyph) :
    tokensOnto [] (shown (records.flatMap recordChars) ++ rest) =
      records.flatMap recordTokens ++ tokensOnto [] rest := by
  induction records with
  | nil => rfl
  | cons r records ih =>
    obtain ⟨hr, hrest⟩ := List.forall_mem_cons.mp h
    rw [List.flatMap_cons, List.flatMap_cons, shown_append, List.append_assoc, tokens_record hr,
      ih hrest, List.append_assoc]

theorem tokens_root (rest : List Glyph) :
    tokensOnto [] (shown ['<', 'i', '>'] ++ rest) =
      .open_ (shown ['i']) [] :: tokensOnto [] rest := by
  have hopen : tag (shown ['i'] ++ .char '>' :: rest) = (.open_ (shown ['i']) [], rest) :=
    tag_open (fun a ha => absurd ha List.not_mem_nil) rest
  exact tokens_tag hopen (by simp)

theorem tokens_end : tokensOnto [] (shown ['\n', '<', '/', 'i', '>']) =
    [.text (shown ['\n']), .close (shown ['i'])] := by
  have hend : tokensOnto [] (shown ['\n'] ++ .char '<' :: shown ['/', 'i', '>']) =
      .text (shown ['\n']) :: tokensOnto [] (.char '<' :: shown ['/', 'i', '>']) :=
    tokens_text (by decide) (by decide) _
  have hclose := tag_close_written []
  rw [List.append_nil] at hclose
  rw [tokens_tag hclose (by simp)] at hend
  simpa [tokensOnto] using hend

theorem toList_documentText (records : List (List (String × String) × String)) :
    (documentText (records.map fun r => recordText r.1 r.2)).toList =
      ['<', 'i', '>'] ++ records.flatMap recordChars ++ ['\n', '<', '/', 'i', '>'] := by
  have hrecords : (String.join (records.map fun r => recordText r.1 r.2)).toList =
      records.flatMap recordChars := by
    rw [String.toList_join, List.flatMap_map]
    exact List.flatMap_congr fun r _ => toList_recordText r
  simp [documentText, elementName, String.toList_append, hrecords]

/-- The pieces of markup of a document. -/
theorem tokens_documentText {records : List (List (String × String) × String)}
    (h : ∀ r ∈ records, ∀ a ∈ r.1, IsAttributeName a.1) :
    tokens (documentText (records.map fun r => recordText r.1 r.2)).toUTF8 =
      .open_ (shown ['i']) [] :: records.flatMap recordTokens ++
        [.text (shown ['\n']), .close (shown ['i'])] := by
  have hmap : ∀ chars : List Char, chars.map Glyph.char = shown chars := fun _ => rfl
  have hmark : ∀ rest : List Glyph, dropByteOrderMark (shown ['<', 'i', '>'] ++ rest) =
      shown ['<', 'i', '>'] ++ rest := fun _ => rfl
  rw [tokens, Utf8.decode_toUTF8, toList_documentText, hmap, List.append_assoc, shown_append, hmark,
    tokens_root, shown_append, tokens_records h, tokens_end]
  rfl

/-! ## Reading -/

theorem plainText_escape (text : String) :
    Reading.plainText (shown (escape text).toList) = .ok text := by
  rw [Reading.plainText, strict?_shown, String.ofList_toList, Option.bind_some, unescape?_escape]

/-- Reading the pieces of a record adds the record. -/
theorem steps_record {r : List (String × String) × String} (h : ∀ a ∈ r.1, IsAttributeName a.1)
    (hnodup : (r.1.map Prod.fst).Nodup) (records : List Record) (rest : List Token) :
    (recordTokens r ++ rest).foldlM Reading.step ⟨[shown ['i']], none, records⟩ =
      rest.foldlM Reading.step ⟨[shown ['i']], none, ⟨Table.ofList r.1, r.2⟩ :: records⟩ := by
  have hspace : Reading.step ⟨[shown ['i']], none, records⟩ (.text (shown "\n  ".toList)) =
      .ok ⟨[shown ['i']], none, records⟩ := rfl
  have hopen : Reading.step ⟨[shown ['i']], none, records⟩
      (.open_ (shown ['i']) (shown (r.1.flatMap attributeChars))) =
        .ok ⟨[shown ['i'], shown ['i']], some ⟨Table.ofList r.1, ""⟩, records⟩ := by
    simp only [Reading.step, List.length_singleton, if_true]
    rw [readAttributes_written h hnodup]
    rfl
  have hclose : Reading.step ⟨[shown ['i'], shown ['i']], some ⟨Table.ofList r.1, r.2⟩, records⟩
      (.close (shown ['i'])) =
        .ok ⟨[shown ['i']], none, ⟨Table.ofList r.1, r.2⟩ :: records⟩ := rfl
  rw [recordTokens, List.append_assoc, List.append_assoc, List.cons_append, foldlM_cons_ok hspace,
    List.cons_append, List.nil_append, foldlM_cons_ok hopen]
  by_cases hempty : r.2 = ""
  · rw [if_pos hempty, List.nil_append, List.singleton_append, ← hempty, foldlM_cons_ok hclose]
  · have htext : Reading.step ⟨[shown ['i'], shown ['i']], some ⟨Table.ofList r.1, ""⟩, records⟩
        (.text (shown (escape r.2).toList)) =
          .ok ⟨[shown ['i'], shown ['i']], some ⟨Table.ofList r.1, r.2⟩, records⟩ := by
      simp only [Reading.step, Reading.write, plainText_escape]
      exact congrArg (fun text => Except.ok (Reading.mk _ (some (Record.mk _ text)) _))
        (String.empty_append)
    rw [if_neg hempty, List.singleton_append, foldlM_cons_ok htext, List.singleton_append,
      foldlM_cons_ok hclose]

theorem steps_records {records : List (List (String × String) × String)}
    (h : ∀ r ∈ records, (∀ a ∈ r.1, IsAttributeName a.1) ∧ (r.1.map Prod.fst).Nodup)
    (before : List Record) (rest : List Token) :
    (records.flatMap recordTokens ++ rest).foldlM Reading.step ⟨[shown ['i']], none, before⟩ =
      rest.foldlM Reading.step ⟨[shown ['i']], none,
        (records.map fun r => ⟨Table.ofList r.1, r.2⟩).reverse ++ before⟩ := by
  induction records generalizing before with
  | nil => rfl
  | cons r records ih =>
    obtain ⟨hr, hrest⟩ := List.forall_mem_cons.mp h
    rw [List.flatMap_cons, List.append_assoc, steps_record hr.1 hr.2, ih hrest, List.map_cons,
      List.reverse_cons, List.append_assoc]
    rfl

/-- A document of records is read back. -/
theorem read_documentText {records : List (List (String × String) × String)}
    (h : ∀ r ∈ records, (∀ a ∈ r.1, IsAttributeName a.1) ∧ (r.1.map Prod.fst).Nodup) :
    Records.read (documentText (records.map fun r => recordText r.1 r.2)).toUTF8 =
      .ok (records.map fun r => ⟨Table.ofList r.1, r.2⟩) := by
  have hopen : Reading.step .start (.open_ (shown ['i']) []) = .ok ⟨[shown ['i']], none, []⟩ := rfl
  rw [Records.read, tokens_documentText fun r hr => (h r hr).1, ofTokens, List.cons_append,
    foldlM_cons_ok hopen, steps_records h, List.append_nil]
  set read := records.map fun r => (⟨Table.ofList r.1, r.2⟩ : Record) with hread
  have htext : Reading.step ⟨[shown ['i']], none, read.reverse⟩ (.text (shown ['\n'])) =
      .ok ⟨[shown ['i']], none, read.reverse⟩ := rfl
  have hclose : Reading.step ⟨[shown ['i']], none, read.reverse⟩ (.close (shown ['i'])) =
      .ok ⟨[], none, read.reverse⟩ := rfl
  rw [foldlM_cons_ok htext, foldlM_cons_ok hclose]
  exact congrArg Except.ok (List.reverse_reverse read)

end Foresight.Records
