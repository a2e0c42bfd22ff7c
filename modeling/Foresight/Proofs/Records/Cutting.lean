import Mathlib.Data.List.Basic
import Foresight.Records.Reader

/-!
# How markup is cut

What is written as characters is read as glyphs, so markup is followed as the glyphs of its
characters (`shown`). Quotes hide everything that would end a tag (`quoteAfter`): a tag whose quotes
are closed ends at the next bracket, and is what its content says (`tag_start`). A section ends at
the first bracket at which it can (`sectionOnto_of`), which is the last one in it unless its content
looks like an end (`section_written`). What stands in front of a tag is one piece (`tokens_text`).
-/

namespace Foresight.Records

open Text

/-- The glyphs of some characters. -/
def shown (chars : List Char) : List Glyph := chars.map .char

section Shown

variable (chars other : List Char)

@[simp] theorem shown_nil : shown [] = [] := rfl

@[simp] theorem shown_cons (c : Char) : shown (c :: chars) = .char c :: shown chars := rfl

@[simp] theorem shown_append : shown (chars ++ other) = shown chars ++ shown other :=
  List.map_append

theorem shown_reverse : shown chars.reverse = (shown chars).reverse := List.map_reverse

theorem strict?_shown : Utf8.strict? (shown chars) = some (String.ofList chars) := by
  simp [Utf8.strict?, shown, Glyph.isWellFormed, Function.comp_def, Glyph.toChar]

theorem lossy_shown : Utf8.lossy (shown chars) = String.ofList chars := by
  simp [Utf8.lossy, shown, Function.comp_def, Glyph.toChar]

theorem shown_inj {chars other : List Char} (h : shown chars = shown other) : chars = other :=
  List.map_injective_iff.mpr (fun _ _ => Glyph.char.inj) h

theorem takeWhile_shown {p : Glyph → Bool} (rest : List Glyph)
    (h : ∀ c ∈ chars, p (.char c) = true) (hrest : ∀ g ∈ rest.head?, p g = false) :
    (shown chars ++ rest).takeWhile p = shown chars ∧ (shown chars ++ rest).dropWhile p = rest := by
  induction chars with
  | nil =>
    cases rest with
    | nil => exact ⟨rfl, rfl⟩
    | cons g rest => simp [hrest g rfl]
  | cons c chars ih =>
    obtain ⟨hc, hchars⟩ := List.forall_mem_cons.mp h
    obtain ⟨htake, hdrop⟩ := ih hchars
    simp [hc, htake, hdrop]

end Shown

theorem is_char {c d : Char} : Glyph.is c (.char d) = true ↔ c = d := beq_iff_eq

theorem not_is_of_not_mem {c : Char} {chars : List Char} (h : c ∉ chars) :
    ∀ d ∈ chars, (!(Glyph.char d).is c) = true := by
  intro d hd
  have hne : c ≠ d := fun heq => h (heq ▸ hd)
  simp [Glyph.is, hne]

/-- The white space of markup. -/
def blanks : List Char := [' ', '\t', '\n', '\r']

theorem isSpace_char {c : Char} : isSpace (.char c) = true ↔ c ∈ blanks := by
  simp only [isSpace, blanks, Bool.or_eq_true, is_char, List.mem_cons, List.not_mem_nil, or_false,
    or_assoc, eq_comm (b := c)]

theorem dropWhile_blanks {space : List Char} (h : ∀ c ∈ space, c ∈ blanks) {rest : List Glyph}
    (hrest : ∀ g ∈ rest.head?, isSpace g = false) :
    (shown space ++ rest).dropWhile isSpace = rest :=
  (takeWhile_shown space rest (fun c hc => isSpace_char.mpr (h c hc)) hrest).2

/-- The characters that a name in a tag is cut at. -/
def nameEnds : List Char := [' ', '\t', '\n', '\r', '=', '>', '\'', '"']

/-- What attributes may be called: anything that is read as one name. -/
def IsAttributeName (name : String) : Prop :=
  name.toList ≠ [] ∧ ∀ c ∈ name.toList, c ∉ nameEnds

instance (name : String) : Decidable (IsAttributeName name) :=
  inferInstanceAs (Decidable (_ ∧ ∀ c ∈ name.toList, _))

theorem IsAttributeName.ne {name : String} (h : IsAttributeName name) {c d : Char}
    (hc : c ∈ name.toList) (hd : d ∈ nameEnds) : c ≠ d := by
  rintro rfl
  exact h.2 c hc hd

theorem isSpace_eq_false {c : Char} (h : c ∉ blanks) : isSpace (.char c) = false :=
  Bool.eq_false_iff.mpr fun hc => h (isSpace_char.mp hc)

/-! ## Attributes -/

section Attributes

variable {gap before after value : List Char} {name : String} {quote : Char}

theorem IsAttributeName.isNamePart (h : IsAttributeName name) {c : Char} (hc : c ∈ name.toList) :
    isSpace (.char c) = false ∧ isNamePart (.char c) = true := by
  have hne := fun (d : Char) (hd : d ∈ nameEnds) => Ne.symm (h.ne hc hd)
  simp (disch := decide) [Records.isNamePart, isSpace, Glyph.is, hne]

/-- An attribute is cut into its name and its value, whatever white space there is and whichever
quotes are used. -/
theorem nextAttribute?_quoted (hgap : ∀ c ∈ gap, c ∈ blanks) (hname : IsAttributeName name)
    (hbefore : ∀ c ∈ before, c ∈ blanks) (hafter : ∀ c ∈ after, c ∈ blanks)
    (hquote : quote = '"' ∨ quote = '\'') (hvalue : quote ∉ value) (rest : List Glyph) :
    nextAttribute? (shown (gap ++ name.toList ++ before ++ '=' :: after ++ quote :: value ++
      [quote]) ++ rest) = some (shown name.toList, some (shown value, rest)) := by
  obtain ⟨c, chars, hchars⟩ := List.exists_cons_of_ne_nil hname.1
  have hpart := fun d (hd : d ∈ c :: chars) => hname.isNamePart (hchars ▸ hd)
  have hisQuote : (Glyph.char quote).is '"' = true ∨ (Glyph.char quote).is '\'' = true :=
    hquote.imp (fun h => is_char.mpr h.symm) fun h => is_char.mpr h.symm
  have hquoteBlank : isSpace (.char quote) = false := by
    rcases hquote with rfl | rfl
    · rfl
    · rfl
  -- What is behind the opening quote, behind the equals sign and behind the name.
  let quoted := shown value ++ .char quote :: rest
  let right := shown after ++ .char quote :: quoted
  let left := shown before ++ .char '=' :: right
  have hglyphs : shown (gap ++ name.toList ++ before ++ '=' :: after ++ quote :: value ++
      [quote]) ++ rest = shown gap ++ .char c :: (shown chars ++ left) := by
    simp [hchars, left, right, quoted]
  have hstart : (shown gap ++ .char c :: (shown chars ++ left)).dropWhile isSpace =
      .char c :: (shown chars ++ left) :=
    dropWhile_blanks hgap (by rintro _ ⟨⟩; exact (hpart c List.mem_cons_self).1)
  obtain ⟨hnameTake, hnameDrop⟩ := takeWhile_shown chars (p := isNamePart) left
    (fun d hd => (hpart d (List.mem_cons_of_mem c hd)).2) (by
      cases before with
      | nil => rintro _ ⟨⟩; rfl
      | cons b before =>
        rintro _ ⟨⟩
        have hb := isSpace_char.mpr (hbefore b List.mem_cons_self)
        simp [isNamePart, hb])
  have hequals : left.dropWhile isSpace = .char '=' :: right :=
    dropWhile_blanks hbefore (by rintro _ ⟨⟩; rfl)
  have hopen : right.dropWhile isSpace = .char quote :: quoted :=
    dropWhile_blanks hafter (by rintro _ ⟨⟩; exact hquoteBlank)
  obtain ⟨hvalueTake, hvalueDrop⟩ : quoted.takeWhile (· != Glyph.char quote) = shown value ∧
      quoted.dropWhile (· != Glyph.char quote) = .char quote :: rest :=
    takeWhile_shown value _ (fun d hd => by
      have hne : d ≠ quote := fun heq => hvalue (heq ▸ hd)
      simp [hne]) (by rintro _ ⟨⟩; simp)
  unfold nextAttribute?
  rw [hglyphs, hstart]
  dsimp only
  rw [hnameTake, hnameDrop, hequals]
  dsimp only
  rw [if_pos (by rfl), hopen]
  dsimp only
  rw [if_pos (by simpa using hisQuote), hvalueDrop, hvalueTake, hchars, shown_cons]

theorem readAttributes_step {glyphs name value rest : List Glyph} {seen : List (List Glyph)}
    {text : String} (fields : Fields)
    (hnext : nextAttribute? glyphs = some (name, some (value, rest))) (hseen : name ∉ seen)
    (htext : (Utf8.strict? value).bind unescape? = some text) :
    readAttributes seen fields glyphs =
      readAttributes (name :: seen) (fields.insert (Utf8.lossy name) text) rest := by
  rw [readAttributes]
  split
  · simp_all
  · simp_all
  · simp_all

/-- Attributes are read one after the other, up to the white space at the end of the tag. -/
theorem readAttributes_all {α : Type} {name text : α → String} {written value : α → List Char}
    {space : List Char} (hspace : ∀ c ∈ space, c ∈ blanks) (items : List α)
    (hnext : ∀ a ∈ items, ∀ rest, nextAttribute? (shown (written a) ++ rest) =
      some (shown (name a).toList, some (shown (value a), rest)))
    (htext : ∀ a ∈ items, unescape? (String.ofList (value a)) = some (text a))
    (hnodup : (items.map name).Nodup) (fields : Fields) {seen : List (List Glyph)}
    (hseen : ∀ a ∈ items, shown (name a).toList ∉ seen) :
    readAttributes seen fields (shown (items.flatMap written ++ space)) =
      .ok (items.foldl (fun fields a => fields.insert (name a) (text a)) fields) := by
  induction items generalizing fields seen with
  | nil =>
    have hend : nextAttribute? (shown space) = none := by
      have hdrop : (shown space ++ []).dropWhile isSpace = [] := dropWhile_blanks hspace nofun
      rw [List.append_nil] at hdrop
      unfold nextAttribute?
      rw [hdrop]
    rw [readAttributes]
    split <;> simp_all
  | cons a rest ih =>
    obtain ⟨hfirst, hnodup'⟩ := List.nodup_cons.mp hnodup
    rw [List.flatMap_cons, List.append_assoc, shown_append, readAttributes_step fields
      (hnext a List.mem_cons_self _) (hseen a List.mem_cons_self)
      (by rw [strict?_shown, Option.bind_some, htext a List.mem_cons_self])]
    rw [lossy_shown, String.ofList_toList, List.foldl_cons]
    refine ih (fun b hb => hnext b (List.mem_cons_of_mem a hb))
      (fun b hb => htext b (List.mem_cons_of_mem a hb)) hnodup' _ fun b hb hmem => ?_
    rcases List.mem_cons.mp hmem with heq | hmem
    · have hsame : name b = name a := String.toList_inj.mp (shown_inj heq)
      exact hfirst (List.mem_map.mpr ⟨b, hb, hsame⟩)
    · exact hseen b (List.mem_cons_of_mem _ hb) hmem

end Attributes

/-! ## Tags -/

/-- A character that neither opens a quote nor ends a tag. -/
def isPlain (c : Char) : Bool := !(c == '>' || c == '\'' || c == '"')

/-- The quote that is open behind some glyphs, as long as they do not end the tag. -/
def quoteAfter : (quote : Option Char) → List Glyph → Option (Option Char)
  | quote, [] => some quote
  | none, g :: rest =>
    if g.is '>' then none
    else if g.is '\'' then quoteAfter (some '\'') rest
    else if g.is '"' then quoteAfter (some '"') rest
    else quoteAfter none rest
  | some q, g :: rest => if g.is q then quoteAfter none rest else quoteAfter (some q) rest

/-- The tag goes on behind glyphs that do not end it. -/
theorem tagOnto_of_quoteAfter {quote quote' : Option Char} {glyphs : List Glyph}
    (h : quoteAfter quote glyphs = some quote') (read rest : List Glyph) :
    tagOnto quote read (glyphs ++ rest) = tagOnto quote' (glyphs.reverse ++ read) rest := by
  fun_induction quoteAfter quote glyphs generalizing read with
  | case1 quote => rw [Option.some.inj h]; rfl
  | case2 => cases h
  | case3 g tail hangle hapos ih | case4 g tail hangle hapos hquote ih
  | case5 g tail hangle hapos hquote ih | case6 q g tail hq ih | case7 q g tail hq ih =>
    rw [List.cons_append, tagOnto]
    simp only [*, if_true, if_false, Bool.false_eq_true, List.reverse_cons, List.append_assoc,
      List.singleton_append]

theorem quoteAfter_append (quote : Option Char) (glyphs more : List Glyph) :
    quoteAfter quote (glyphs ++ more) = (quoteAfter quote glyphs).bind (quoteAfter · more) := by
  fun_induction quoteAfter quote glyphs with
  | case1 => rfl
  | _ => simp_all [quoteAfter]

theorem quoteAfter_flatMap {α : Type} {written : α → List Char} {items : List α}
    (h : ∀ a ∈ items, quoteAfter none (shown (written a)) = some none) :
    quoteAfter none (shown (items.flatMap written)) = some none := by
  induction items with
  | nil => rfl
  | cons a items ih =>
    obtain ⟨ha, hrest⟩ := List.forall_mem_cons.mp h
    rw [List.flatMap_cons, shown_append, quoteAfter_append, ha, Option.bind_some, ih hrest]

theorem quoteAfter_plain {chars : List Char} (h : ∀ c ∈ chars, isPlain c = true) :
    quoteAfter none (shown chars) = some none := by
  induction chars with
  | nil => rfl
  | cons c chars ih =>
    obtain ⟨hc, hchars⟩ := List.forall_mem_cons.mp h
    simp only [isPlain, Bool.not_eq_true', Bool.or_eq_false_iff, beq_eq_false_iff_ne] at hc
    obtain ⟨⟨hangle, happos⟩, hquote⟩ := hc
    rw [shown_cons, quoteAfter, if_neg (by simp [Glyph.is, hangle.symm]),
      if_neg (by simp [Glyph.is, happos.symm]), if_neg (by simp [Glyph.is, hquote.symm]), ih hchars]

/-- Between quotes everything else is hidden. -/
theorem quoteAfter_quoted {quote : Char} (hquote : quote = '"' ∨ quote = '\'') {chars : List Char}
    (h : quote ∉ chars) : quoteAfter none (shown (quote :: chars ++ [quote])) = some none := by
  have hquoted : quoteAfter (some quote) (shown (chars ++ [quote])) = some none := by
    induction chars with
    | nil => simp [quoteAfter, Glyph.is]
    | cons c chars ih =>
      rw [List.mem_cons, not_or] at h
      rw [List.cons_append, shown_cons, quoteAfter, if_neg (by simp [Glyph.is, h.1]), ih h.2]
  rw [List.cons_append, shown_cons, quoteAfter]
  rcases hquote with rfl | rfl
  · rw [if_neg (by decide), if_neg (by decide), if_pos (by decide), hquoted]
  · rw [if_neg (by decide), if_pos (by decide), hquoted]

/-- The quotes of an attribute are closed behind it. -/
theorem quoteAfter_attribute {gap before after value : List Char} {name : String} {quote : Char}
    (hgap : ∀ c ∈ gap, c ∈ blanks) (hname : IsAttributeName name)
    (hbefore : ∀ c ∈ before, c ∈ blanks) (hafter : ∀ c ∈ after, c ∈ blanks)
    (hquote : quote = '"' ∨ quote = '\'') (hvalue : quote ∉ value) :
    quoteAfter none (shown (gap ++ name.toList ++ before ++ '=' :: after ++ quote :: value ++
      [quote])) = some none := by
  have hblank : ∀ c ∈ blanks, isPlain c = true := by decide
  have hplain : ∀ c ∈ gap ++ name.toList ++ before ++ '=' :: after, isPlain c = true := by
    intro c hc
    simp only [List.mem_append, List.mem_cons] at hc
    rcases hc with ((hc | hc) | hc) | rfl | hc
    · exact hblank c (hgap c hc)
    · have hne := fun (d : Char) (hd : d ∈ nameEnds) => hname.ne hc hd
      simp (disch := decide) [isPlain, hne]
    · exact hblank c (hbefore c hc)
    · rfl
    · exact hblank c (hafter c hc)
  have hchars : shown (gap ++ name.toList ++ before ++ '=' :: after ++ quote :: value ++
      [quote]) = shown (gap ++ name.toList ++ before ++ '=' :: after) ++
        shown (quote :: value ++ [quote]) := by
    simp
  rw [hchars, quoteAfter_append, quoteAfter_plain hplain, Option.bind_some,
    quoteAfter_quoted hquote hvalue]

/-- Attributes in a tag end in their quotes. -/
theorem getLast?_attributes_ne {α : Type} {written : α → List Char} {quote : α → Char} {c : Char}
    {name : List Char} (hname : name.getLast? ≠ some c) {items : List α}
    (h : ∀ a ∈ items, (written a).getLast? = some (quote a) ∧ quote a ≠ c) :
    (name ++ items.flatMap written).getLast? ≠ some c := by
  rcases List.eq_nil_or_concat items with rfl | ⟨init, a, rfl⟩
  · rwa [List.flatMap_nil, List.append_nil]
  · obtain ⟨hlast, hquote⟩ := h a (by simp)
    rw [List.concat_eq_append, List.flatMap_append, List.flatMap_singleton, ← List.append_assoc,
      List.getLast?_append, hlast, Option.some_or]
    exact fun heq => hquote (Option.some.inj heq)

/-- A tag whose quotes are closed ends at the next bracket. -/
theorem tag_start {c : Char} {chars : List Char} (hc : c ∉ ['!', '/', '?'])
    (h : quoteAfter none (shown (c :: chars)) = some none) (rest : List Glyph) :
    tag (shown (c :: chars) ++ .char '>' :: rest) = (startTag (shown (c :: chars)), rest) := by
  have hcontent : tagOnto none [] (shown (c :: chars) ++ .char '>' :: rest) =
      (shown (c :: chars), rest) := by
    rw [tagOnto_of_quoteAfter h, tagOnto, if_pos (by decide)]
    simp
  have hno : ∀ d ∈ ['!', '/', '?'], ¬Glyph.is d (.char c) = true := fun d hd hdc =>
    hc (is_char.mp hdc ▸ hd)
  unfold tag
  rw [shown_cons, List.cons_append]
  dsimp only
  rw [if_neg (hno '!' (by decide)), if_neg (hno '/' (by decide)), if_neg (hno '?' (by decide)),
    ← List.cons_append, ← shown_cons, hcontent]

section Content

variable {name behind : List Char}

/-- The name of a tag goes up to the first white space. -/
theorem name_shown (hname : ∀ c ∈ name, c ∉ blanks) (hbehind : ∀ c ∈ behind.head?, c ∈ blanks) :
    (shown (name ++ behind)).takeWhile (!isSpace ·) = shown name ∧
      (shown (name ++ behind)).dropWhile (!isSpace ·) = shown behind := by
  rw [shown_append]
  refine takeWhile_shown name (shown behind)
    (fun c hc => by rw [isSpace_eq_false (hname c hc)]; rfl) ?_
  cases behind with
  | nil => exact fun _ h => nomatch h
  | cons b behind =>
    rintro _ ⟨⟩
    rw [isSpace_char.mpr (hbehind b rfl)]
    rfl

theorem startTag_open (hname : ∀ c ∈ name, c ∉ blanks) (hbehind : ∀ c ∈ behind.head?, c ∈ blanks)
    (hne : name ≠ []) (hlast : (name ++ behind).getLast? ≠ some '/') :
    startTag (shown (name ++ behind)) = .open_ (shown name) (shown behind) := by
  obtain ⟨htake, hdrop⟩ := name_shown hname hbehind
  obtain ⟨init, last, hcontent⟩ :=
    (List.eq_nil_or_concat (name ++ behind)).resolve_left (by simp [hne])
  rw [List.concat_eq_append] at hcontent
  have hslash : ¬Glyph.is '/' (.char last) = true := fun h => by
    rw [hcontent, List.getLast?_concat, ← is_char.mp h] at hlast
    exact hlast rfl
  unfold startTag
  rw [htake, hdrop, hcontent, shown_append, shown_cons, shown_nil, List.getLast?_concat]
  dsimp only
  rw [if_neg hslash]

theorem startTag_selfClosing (hname : ∀ c ∈ name, c ∉ blanks)
    (hbehind : ∀ c ∈ behind.head?, c ∈ blanks) :
    startTag (shown (name ++ behind ++ ['/'])) = .selfClosing (shown behind) := by
  unfold startTag
  rw [shown_append, shown_cons, shown_nil, List.getLast?_concat]
  dsimp only
  rw [if_pos (by decide), List.dropLast_concat, (name_shown hname hbehind).2]

end Content

theorem tag_close {name space : List Char} (hne : name ≠ []) (hname : ∀ c ∈ name, c ∉ blanks)
    (hspace : ∀ c ∈ space, c ∈ blanks) (hangle : '>' ∉ name) (rest : List Glyph) :
    tag (shown ('/' :: name ++ space) ++ .char '>' :: rest) = (.close (shown name), rest) := by
  have hclosed : '>' ∉ name ++ space := by
    rw [List.mem_append, not_or]
    exact ⟨hangle, fun h => absurd (hspace _ h) (by decide)⟩
  obtain ⟨htake, hdrop⟩ := takeWhile_shown (name ++ space) (p := (!·.is '>')) (.char '>' :: rest)
    (not_is_of_not_mem hclosed) (by rintro _ ⟨⟩; rfl)
  have htrim : (shown (name ++ space)).reverse.dropWhile isSpace = (shown name).reverse := by
    rw [shown_append, List.reverse_append, ← shown_reverse, ← shown_reverse]
    refine dropWhile_blanks (fun c hc => hspace c (List.mem_reverse.mp hc)) ?_
    intro g hg
    obtain ⟨last, hlast, rfl⟩ := List.mem_map.mp (List.mem_of_mem_head? hg)
    exact isSpace_eq_false (hname last (List.mem_reverse.mp hlast))
  have hend : endTag (shown (name ++ space)) = .close (shown name) := by
    unfold endTag
    dsimp only
    rw [htrim, List.reverse_reverse, if_neg (by simp [shown, hne])]
  unfold tag
  rw [List.cons_append, shown_cons, List.cons_append]
  dsimp only
  rw [if_neg (by decide), if_pos (by decide), htake, hdrop, hend]
  rfl

/-! ## Sections -/

/-- A section ends at the bracket at which it can, if it cannot end at any before. -/
theorem sectionOnto_of {isDone : List Glyph → Bool} {body : List Char} {read : List Glyph}
    (hopen : ∀ before after, body = before ++ '>' :: after →
      isDone ((shown before).reverse ++ read) = false)
    (hdone : isDone ((shown body).reverse ++ read) = true) (rest : List Glyph) :
    sectionOnto isDone read (shown body ++ .char '>' :: rest) =
      some (read.reverse ++ shown body, rest) := by
  induction body generalizing read with
  | nil =>
    have hdone' : isDone read = true := hdone
    rw [shown_nil, List.nil_append, sectionOnto, hdone', if_pos (by decide), List.append_nil]
  | cons c body ih =>
    have hskip : ¬((Glyph.char c).is '>' && isDone read) = true := by
      rw [Bool.and_eq_true, not_and]
      intro hc
      have hread := hopen [] body (by rw [is_char.mp hc]; rfl)
      rw [shown_nil, List.reverse_nil, List.nil_append] at hread
      rw [hread]
      exact Bool.false_ne_true
    have hstep : ∀ chars, (shown (c :: chars)).reverse ++ read =
        (shown chars).reverse ++ (.char c :: read) := fun chars => by simp
    rw [shown_cons, List.cons_append, sectionOnto, if_neg hskip, ih, List.reverse_cons,
      List.append_assoc]
    · rfl
    · intro before after hbody
      rw [← hstep]
      exact hopen (c :: before) after (by rw [hbody]; rfl)
    · rw [← hstep]
      exact hdone

section Ends

variable {opening chars after init : List Char} {e : Char}

/-- What was read ends in two equal characters. -/
theorem ends_twice_iff {l : List Char} :
    2 ≤ l.length ∧ ((shown l).reverse.take 2).all (·.is e) = true ↔ ∃ init, l = init ++ [e, e] := by
  constructor
  · rintro ⟨hlength, h⟩
    obtain ⟨front, last, rfl⟩ :=
      (List.eq_nil_or_concat l).resolve_left (by rintro rfl; simp at hlength)
    obtain ⟨init, d, rfl⟩ :=
      (List.eq_nil_or_concat front).resolve_left (by rintro rfl; simp at hlength)
    obtain ⟨rfl, rfl⟩ : e = last ∧ e = d := by simpa [shown, is_char] using h
    exact ⟨init, by simp⟩
  · rintro ⟨init, rfl⟩
    exact ⟨by simp, by simp [shown, is_char]⟩

theorem length_shown_reverse (l : List Char) : (shown l).reverse.length = l.length := by
  simp [shown]

theorem endsRawText_iff {l : List Char} :
    endsRawText (shown l).reverse = true ↔ ∃ init, l = init ++ [']', ']'] := by
  rw [endsRawText, Bool.and_eq_true, decide_eq_true_eq, length_shown_reverse, ends_twice_iff]

/-- The two dashes that a comment begins with are not those that end it. -/
theorem endsComment_iff {l : List Char} :
    endsComment (shown l).reverse = true ↔ ∃ init, 2 ≤ init.length ∧ l = init ++ ['-', '-'] := by
  rw [endsComment, Bool.and_eq_true, decide_eq_true_eq, length_shown_reverse]
  constructor
  · rintro ⟨hlength, h⟩
    obtain ⟨init, rfl⟩ := ends_twice_iff.mp ⟨by omega, h⟩
    rw [List.length_append] at hlength
    exact ⟨init, Nat.le_of_add_le_add_right (b := 2) hlength, rfl⟩
  · rintro ⟨init, hinit, rfl⟩
    refine ⟨?_, (ends_twice_iff.mpr ⟨init, rfl⟩).2⟩
    rw [List.length_append]
    exact Nat.add_le_add_right hinit 2

/-- What looks like the end of a section, and stands in front of its end, is in its content. -/
theorem infix_of_end (he : e ≠ '>') (hopening : opening.length ≤ init.length ∨ e ∉ opening)
    (h : opening ++ chars ++ [e, e] = init ++ [e, e] ++ '>' :: after) : [e, e, '>'] <:+: chars := by
  -- The opening is over before it,
  obtain ⟨middle, rfl⟩ : ∃ middle, init = opening ++ middle := by
    rw [List.append_assoc, List.append_assoc] at h
    rcases List.append_eq_append_iff.mp h with ⟨middle, hinit, -⟩ | ⟨more, hopened, hmore⟩
    · exact ⟨middle, hinit⟩
    · cases more with
      | nil => exact ⟨[], by rw [hopened, List.append_nil, List.append_nil]⟩
      | cons c more =>
        have hc : c = e := (List.cons.inj hmore).1.symm
        rcases hopening with hlength | hnot
        · rw [hopened, List.length_append, List.length_cons] at hlength
          omega
        · exact absurd (by rw [hopened, hc]; simp) hnot
  -- and its bracket is not one of the two characters at the end.
  have hbehind : opening ++ (chars ++ [e, e]) = opening ++ ((middle ++ [e, e, '>']) ++ after) := by
    simpa using h
  rcases List.append_eq_append_iff.mp (List.append_cancel_left hbehind) with
    ⟨more, hmiddle, hend⟩ | ⟨more, hcontent, -⟩
  · rcases List.eq_nil_or_concat more with rfl | ⟨most, c, rfl⟩
    · exact ⟨middle, [], by rw [List.append_nil, hmiddle, List.append_nil]⟩
    · have hc : c = '>' := by
        have hlast := congrArg List.getLast? hmiddle
        simpa using hlast.symm
      have hmem : c ∈ [e, e] := by rw [hend]; simp
      exact absurd (by simpa [hc] using hmem) (Ne.symm he)
  · exact ⟨middle, more, hcontent.symm⟩

/-- A section that ends in two equal characters and a bracket goes on until there. -/
theorem section_written {isDone : List Glyph → Bool} (meaning : List Glyph → Token)
    (he : e ≠ '>') (hchars : ¬[e, e, '>'] <:+: chars)
    (hends : ∀ l, isDone (shown l).reverse = true →
      ∃ init, l = init ++ [e, e] ∧ (opening.length ≤ init.length ∨ e ∉ opening))
    (hdone : isDone (shown (opening ++ chars ++ [e, e])).reverse = true) (rest : List Glyph) :
    section_ isDone meaning (shown (opening ++ chars ++ [e, e]) ++ .char '>' :: rest) =
      (meaning (shown (opening ++ chars ++ [e, e])), rest) := by
  have hcut : sectionOnto isDone [] (shown (opening ++ chars ++ [e, e]) ++ .char '>' :: rest) =
      some ([].reverse ++ shown (opening ++ chars ++ [e, e]), rest) := by
    refine sectionOnto_of (fun before after hbody => ?_) (by rwa [List.append_nil]) rest
    rw [List.append_nil, Bool.eq_false_iff]
    intro hbefore
    obtain ⟨init, rfl, hopening⟩ := hends before hbefore
    exact hchars (infix_of_end he hopening hbody)
  rw [section_, hcut]
  rfl

end Ends

theorem tag_raw {glyphs : List Glyph} (h : glyphs.head? = some (.char '[')) :
    tag (.char '!' :: glyphs) = section_ endsRawText rawSection glyphs := by
  obtain ⟨rest, rfl⟩ := List.head?_eq_some_iff.mp h
  unfold tag bang
  dsimp only
  rw [if_pos (by decide), if_neg (by decide), if_pos (by decide)]

theorem tag_comment {glyphs : List Glyph} (h : glyphs.head? = some (.char '-')) :
    tag (.char '!' :: glyphs) = section_ endsComment comment glyphs := by
  obtain ⟨rest, rfl⟩ := List.head?_eq_some_iff.mp h
  unfold tag bang
  dsimp only
  rw [if_pos (by decide), if_pos (by decide)]

/-- An instruction goes on up to the next bracket, whatever is in it. -/
theorem tag_instruction {chars : List Char} (hne : chars ≠ []) (hangle : '>' ∉ chars)
    (rest : List Glyph) :
    tag (.char '?' :: (shown (chars ++ ['?']) ++ .char '>' :: rest)) = (.skipped, rest) := by
  have hclosed : '>' ∉ chars ++ ['?'] := by
    rw [List.mem_append, not_or]
    exact ⟨hangle, by decide⟩
  obtain ⟨htake, hdrop⟩ := takeWhile_shown (chars ++ ['?']) (p := (!·.is '>')) (.char '>' :: rest)
    (not_is_of_not_mem hclosed) (by rintro _ ⟨⟩; rfl)
  have hmeaning : instruction (shown (chars ++ ['?'])) = .skipped := by
    obtain ⟨init, last, rfl⟩ := (List.eq_nil_or_concat chars).resolve_left hne
    simp [instruction, Glyph.is]
  unfold tag
  dsimp only
  rw [if_neg (by decide), if_neg (by decide), if_pos (by decide), htake, hdrop, hmeaning]
  rfl

/-! ## Pieces -/

/-- What has been cut stands in front of what is still to be cut. -/
theorem tokensOnto_eq (cut : List Token) (glyphs : List Glyph) :
    tokensOnto cut glyphs = cut.reverse ++ tokensOnto [] glyphs := by
  match glyphs with
  | [] => simp [tokensOnto]
  | g :: rest =>
    have htag : (tag rest).2.length < (g :: rest).length := Nat.lt_succ_of_le (length_tag_le rest)
    have hdrop : (rest.dropWhile (!·.is '<')).length < (g :: rest).length :=
      Nat.lt_succ_of_le (List.dropWhile_suffix _).length_le
    rw [tokensOnto, tokensOnto]
    by_cases hangle : g.is '<' = true
    · rw [if_pos hangle, if_pos hangle]
      by_cases hfault : (tag rest).1 = .fault
      · rw [if_pos hfault, if_pos hfault, List.reverse_cons]
        rfl
      · rw [if_neg hfault, if_neg hfault, tokensOnto_eq (_ :: cut), tokensOnto_eq [_],
          List.reverse_cons, List.append_assoc]
        rfl
    · rw [if_neg hangle, if_neg hangle, tokensOnto_eq (_ :: cut), tokensOnto_eq [_],
        List.reverse_cons, List.append_assoc]
      rfl
  termination_by glyphs.length
  decreasing_by
    · exact htag
    · exact htag
    · exact hdrop
    · exact hdrop

/-- Characters in front of a bracket, or of the end of the input, are one piece. -/
theorem tokens_chars {chars : List Char} (hne : chars ≠ []) (h : '<' ∉ chars) {rest : List Glyph}
    (hrest : ∀ g ∈ rest.head?, g.is '<' = true) :
    tokensOnto [] (shown chars ++ rest) = .text (shown chars) :: tokensOnto [] rest := by
  obtain ⟨c, chars, rfl⟩ := List.exists_cons_of_ne_nil hne
  obtain ⟨hc, hchars⟩ := List.forall_mem_cons.mp (not_is_of_not_mem h)
  obtain ⟨htake, hdrop⟩ := takeWhile_shown chars (p := (!·.is '<')) rest hchars
    fun g hg => by rw [hrest g hg]; rfl
  rw [shown_cons, List.cons_append, tokensOnto, if_neg (by simpa using hc), tokensOnto_eq, hdrop,
    List.takeWhile_cons, if_pos hc, htake]
  rfl

theorem tokens_text {chars : List Char} (hne : chars ≠ []) (h : '<' ∉ chars) (rest : List Glyph) :
    tokensOnto [] (shown chars ++ .char '<' :: rest) =
      .text (shown chars) :: tokensOnto [] (.char '<' :: rest) :=
  tokens_chars hne h (by rintro _ ⟨⟩; rfl)

theorem tokens_tag {glyphs rest : List Glyph} {token : Token} (h : tag glyphs = (token, rest))
    (hfault : token ≠ .fault) :
    tokensOnto [] (.char '<' :: glyphs) = token :: tokensOnto [] rest := by
  rw [tokensOnto, if_pos (by decide), h, if_neg hfault, tokensOnto_eq]
  rfl

/-! ## Reading -/

theorem foldlM_cons_ok {r r' : Reading} {token : Token} (h : r.step token = .ok r')
    (rest : List Token) : (token :: rest).foldlM Reading.step r = rest.foldlM Reading.step r' := by
  rw [List.foldlM_cons, h]
  rfl

end Foresight.Records
