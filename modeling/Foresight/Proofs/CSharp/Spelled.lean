import Foresight.Proofs.CSharp.Written

/-!
# White space in written types

A type can be written with white space at its ends, around angle brackets and commas, and before the
suffixes of arrays and nullable types (`Spells`). Reading a type squeezes the white space first,
which makes one more spelling of it (`Spells.squeeze`), without any at the ends; so the suffix or
the angle brackets are found where they were written, and the arguments are cut at the commas
between them (`SpellsAll.splitArguments`). What is read there is the form of the type
(`bind_ofChars`), so the white space makes no difference (`resolveType_ignores_spacing`).
-/

namespace Foresight

namespace CSharp

open Text TypeText

/-! ## Spellings -/

/-- The form of a written type. -/
inductive TypeForm where
  | name (text : String)
  | generic (base : String) (arguments : List TypeForm)
  | array (element : TypeForm)
  | nullable (inner : TypeForm)

mutual

/-- The ways in which a type can be written. -/
inductive Spells : TypeForm → List Char → Prop where
  | name {text : String} {before after : List Char} (htext : IsTypeName text.toList)
      (hbefore : Blanks before) (hafter : Blanks after) :
      Spells (.name text) (before ++ (text.toList ++ after))
  | generic {base : String} {arguments : List TypeForm} {before between inner after : List Char}
      (hbase : IsTypeName base.toList) (hbefore : Blanks before) (hbetween : Blanks between)
      (harguments : SpellsAll arguments inner) (hafter : Blanks after) :
      Spells (.generic base arguments)
        (before ++ (base.toList ++ (between ++ '<' :: (inner ++ '>' :: after))))
  | array {element : TypeForm} {text after : List Char} (helement : Spells element text)
      (hafter : Blanks after) : Spells (.array element) (text ++ ('[' :: ']' :: after))
  | nullable {inner : TypeForm} {text after : List Char} (hinner : Spells inner text)
      (hafter : Blanks after) : Spells (.nullable inner) (text ++ ('?' :: after))

/-- The ways in which the arguments of a generic type can be written. -/
inductive SpellsAll : List TypeForm → List Char → Prop where
  | last {t : TypeForm} {text : List Char} (ht : Spells t text) : SpellsAll [t] text
  | more {t : TypeForm} {rest : List TypeForm} {text others : List Char} (ht : Spells t text)
      (hrest : SpellsAll rest others) : SpellsAll (t :: rest) (text ++ ',' :: others)

end
/-! ## Squeezed spellings -/

/-- White space can be put in front of a type. -/
theorem Spells.blanks_append {blanks : List Char} (hblanks : Blanks blanks) :
    ∀ {t : TypeForm} {text : List Char}, Spells t text → Spells t (blanks ++ text)
  | _, _, .name htext hbefore hafter => by
    rw [← List.append_assoc]
    exact .name htext (hblanks.append hbefore) hafter
  | _, _, .generic hbase hbefore hbetween harguments hafter => by
    rw [← List.append_assoc]
    exact .generic hbase (hblanks.append hbefore) hbetween harguments hafter
  | _, _, .array helement hafter => by
    rw [← List.append_assoc]
    exact .array (helement.blanks_append hblanks) hafter
  | _, _, .nullable hinner hafter => by
    rw [← List.append_assoc]
    exact .nullable (hinner.blanks_append hblanks) hafter

theorem SpellsAll.blanks_append {blanks : List Char} (hblanks : Blanks blanks)
    {ts : List TypeForm} {text : List Char} (h : SpellsAll ts text) :
    SpellsAll ts (blanks ++ text) := by
  cases h with
  | last ht => exact .last (ht.blanks_append hblanks)
  | more ht hrest =>
    rw [← List.append_assoc]
    exact .more (ht.blanks_append hblanks) hrest

mutual

/-- Squeezing what begins with a type makes another spelling of it. -/
theorem Spells.squeeze : ∀ {t : TypeForm} {text : List Char}, Spells t text → ∀ more : List Char,
    ∃ text', Spells t text' ∧ squeezeChars (text ++ more) = text' ++ squeezeChars more
  | _, _, @Spells.name text before after htext hbefore hafter, more => by
    obtain ⟨gap, hgap, heq⟩ := squeezeChars_word htext.not_blank (after ++ more)
    refine ⟨[] ++ (text.toList ++ gap), .name htext blanks_nil hgap, ?_⟩
    rw [List.append_assoc, List.append_assoc, squeezeChars_blanks hbefore, heq,
      squeezeChars_blanks hafter, List.nil_append, List.append_assoc]
  | _, _, @Spells.generic base arguments before between inner after hbase hbefore hbetween
      harguments hafter, more => by
    obtain ⟨gap, hgap, hclosed⟩ :=
      squeezeChars_marks (by decide : ['>'] ⊆ typeMarks) hafter more
    obtain ⟨inner', hinner', hinside⟩ := harguments.squeeze (['>'] ++ (after ++ more))
    obtain ⟨gap', hgap', hopened⟩ := squeezeChars_marks (by decide : ['<'] ⊆ typeMarks)
      blanks_nil (inner ++ (['>'] ++ (after ++ more)))
    obtain ⟨between', hbetween', hnamed⟩ := squeezeChars_word hbase.not_blank
      (between ++ (['<'] ++ ([] ++ (inner ++ (['>'] ++ (after ++ more))))))
    refine ⟨[] ++ (base.toList ++ (between' ++ '<' :: ((gap' ++ inner') ++ '>' :: gap))),
      .generic hbase blanks_nil hbetween' (hinner'.blanks_append hgap') hgap, ?_⟩
    calc squeezeChars (before ++ (base.toList ++ (between ++ '<' :: (inner ++ '>' :: after))) ++
          more)
        = squeezeChars (base.toList ++
            (between ++ (['<'] ++ ([] ++ (inner ++ (['>'] ++ (after ++ more))))))) := by
          rw [List.append_assoc, squeezeChars_blanks hbefore]
          simp
      _ = _ := by
          rw [hnamed, squeezeChars_blanks hbetween, hopened, hinside, hclosed]
          simp
  | _, _, @Spells.array element text after helement hafter, more => by
    obtain ⟨gap, hgap, hsuffix⟩ :=
      squeezeChars_marks (by decide : ['[', ']'] ⊆ typeMarks) hafter more
    obtain ⟨text', htext', heq⟩ := helement.squeeze (['[', ']'] ++ (after ++ more))
    refine ⟨text' ++ ('[' :: ']' :: gap), .array htext' hgap, ?_⟩
    rw [hsuffix] at heq
    simpa only [List.append_assoc, List.cons_append, List.nil_append] using heq
  | _, _, @Spells.nullable inner text after hinner hafter, more => by
    obtain ⟨gap, hgap, hsuffix⟩ :=
      squeezeChars_marks (by decide : ['?'] ⊆ typeMarks) hafter more
    obtain ⟨text', htext', heq⟩ := hinner.squeeze (['?'] ++ (after ++ more))
    refine ⟨text' ++ ('?' :: gap), .nullable htext' hgap, ?_⟩
    rw [hsuffix] at heq
    simpa only [List.append_assoc, List.cons_append, List.nil_append] using heq

theorem SpellsAll.squeeze : ∀ {ts : List TypeForm} {text : List Char}, SpellsAll ts text →
    ∀ more : List Char,
    ∃ text', SpellsAll ts text' ∧ squeezeChars (text ++ more) = text' ++ squeezeChars more
  | _, _, .last ht, more =>
    have ⟨text', htext', heq⟩ := ht.squeeze more
    ⟨text', .last htext', heq⟩
  | _, _, @SpellsAll.more t rest text others ht hrest, more => by
    obtain ⟨others', hothers', hbehind⟩ := hrest.squeeze more
    obtain ⟨gap, hgap, hcomma⟩ :=
      squeezeChars_marks (by decide : [','] ⊆ typeMarks) blanks_nil (others ++ more)
    obtain ⟨text', htext', heq⟩ := ht.squeeze ([','] ++ ([] ++ (others ++ more)))
    refine ⟨text' ++ ',' :: (gap ++ others'), .more htext' (hothers'.blanks_append hgap), ?_⟩
    rw [hcomma, hbehind] at heq
    simpa only [List.append_assoc, List.cons_append, List.nil_append] using heq

end

/-- Squeezing a type makes a spelling of it that has no white space at the ends. -/
theorem Spells.squeezed {t : TypeForm} {text : List Char} (h : Spells t text) :
    Spells t (squeezeChars text) ∧ Trimmed (squeezeChars text) := by
  obtain ⟨text', htext', heq⟩ := h.squeeze []
  rw [List.append_nil, (by rfl : squeezeChars [] = []), List.append_nil] at heq
  exact ⟨heq ▸ htext', trimmed_squeezeChars text⟩

theorem squeezeChars_name {name : String} {cs : List Char} (h : Spells (.name name) cs) :
    IsTypeName name.toList ∧ squeezeChars cs = name.toList := by
  obtain ⟨hspells, htrimmed⟩ := h.squeezed
  generalize squeezeChars cs = squeezed at hspells htrimmed
  cases hspells with
  | name hname hbefore hafter =>
    obtain rfl := htrimmed.eq_nil_of_isPrefix (List.prefix_append _ _) hbefore
    obtain rfl := htrimmed.eq_nil_of_suffix ⟨name.toList, rfl⟩ hafter
    exact ⟨hname, List.append_nil _⟩

/-- The angle brackets are the first and the last one, and the text ends with them. -/
theorem squeezeChars_generic {base : String} {arguments : List TypeForm} {cs : List Char}
    (h : Spells (.generic base arguments) cs) :
    IsTypeName base.toList ∧ ∃ before between inner, Blanks before ∧ Blanks between ∧
      SpellsAll arguments inner ∧
      squeezeChars cs = before ++ (base.toList ++ between) ++ '<' :: (inner ++ ['>']) := by
  obtain ⟨hspells, htrimmed⟩ := h.squeezed
  generalize squeezeChars cs = squeezed at hspells htrimmed
  cases hspells with
  | @generic _ _ before between inner after hbase hbefore hbetween harguments hafter =>
    obtain rfl := htrimmed.eq_nil_of_suffix
      ⟨before ++ (base.toList ++ (between ++ '<' :: (inner ++ ['>']))), by simp⟩ hafter
    exact ⟨hbase, before, between, inner, hbefore, hbetween, harguments, by simp⟩

theorem squeezeChars_array {element : TypeForm} {cs : List Char} (h : Spells (.array element) cs) :
    ∃ text, Spells element text ∧ squeezeChars cs = text ++ ['[', ']'] := by
  obtain ⟨hspells, htrimmed⟩ := h.squeezed
  generalize squeezeChars cs = squeezed at hspells htrimmed
  cases hspells with
  | @array _ text after helement hafter =>
    obtain rfl := htrimmed.eq_nil_of_suffix ⟨text ++ ['[', ']'], by simp⟩ hafter
    exact ⟨text, helement, rfl⟩

theorem squeezeChars_nullable {inner : TypeForm} {cs : List Char}
    (h : Spells (.nullable inner) cs) :
    ∃ text, Spells inner text ∧ squeezeChars cs = text ++ ['?'] := by
  obtain ⟨hspells, htrimmed⟩ := h.squeezed
  generalize squeezeChars cs = squeezed at hspells htrimmed
  cases hspells with
  | @nullable _ text after hinner hafter =>
    obtain rfl := htrimmed.eq_nil_of_suffix ⟨text ++ ['?'], by simp⟩ hafter
    exact ⟨text, hinner, rfl⟩

/-! ## Commas -/

/-- The search for the commas between arguments goes over a text without a cut, and is then as deep
as before. -/
def PassedOver (depth : Nat) (text : List Char) : Prop :=
  ∀ part rest, splitArguments depth part (text ++ rest) =
    splitArguments depth (text.reverse ++ part) rest

theorem PassedOver.append {depth : Nat} {text more : List Char} (h : PassedOver depth text)
    (hmore : PassedOver depth more) : PassedOver depth (text ++ more) := fun part rest => by
  rw [List.append_assoc, h, hmore, List.reverse_append, List.append_assoc]

/-- The search acts on no other characters than these. -/
def argumentMarks : List Char := ['<', '>', ',']

theorem passedOver_of_forall {text : List Char} (h : ∀ c ∈ text, c ∉ argumentMarks) (depth : Nat) :
    PassedOver depth text := fun part rest => by
  induction text generalizing part with
  | nil => rfl
  | cons c text ih =>
    obtain ⟨hc, htext⟩ := List.forall_mem_cons.mp h
    have hopen : c ≠ '<' := fun heq => hc (heq ▸ by decide)
    have hclose : c ≠ '>' := fun heq => hc (heq ▸ by decide)
    have hcomma : c ≠ ',' := fun heq => hc (heq ▸ by decide)
    rw [List.cons_append, splitArguments, if_neg fun hand => hcomma hand.1, if_neg hopen,
      if_neg hclose, ih htext, List.reverse_cons, List.append_assoc]
    rfl

/-- Commas that do not stand between angle brackets are passed over as well. -/
theorem PassedOver.comma {depth : Nat} {text : List Char} (h : PassedOver (depth + 1) text) :
    PassedOver (depth + 1) (',' :: text) := fun part rest => by
  rw [List.cons_append, splitArguments, if_neg (by simp), if_neg (by decide), if_neg (by decide),
    h, List.reverse_cons, List.append_assoc]
  rfl

theorem PassedOver.angled {depth : Nat} {inner after : List Char}
    (hinner : PassedOver (depth + 1) inner) (hafter : PassedOver depth after) :
    PassedOver depth ('<' :: (inner ++ '>' :: after)) := fun part rest => by
  rw [List.cons_append, splitArguments, if_neg (by simp), if_pos rfl, List.append_assoc, hinner,
    List.cons_append, splitArguments, if_neg (by simp), if_neg (by decide), if_pos rfl,
    Nat.add_sub_cancel, hafter]
  simp

theorem Blanks.passedOver {blanks : List Char} (h : Blanks blanks) (depth : Nat) :
    PassedOver depth blanks := by
  have hmarks : ∀ c ∈ argumentMarks, isBlank c = false := by decide
  refine passedOver_of_forall (fun c hc hmark => ?_) depth
  exact Bool.false_ne_true ((hmarks c hmark).symm.trans (h c hc))

theorem TypeText.IsTypeName.passedOver {text : List Char} (h : IsTypeName text) (depth : Nat) :
    PassedOver depth text := by
  have hmarks : argumentMarks ⊆ typeMarks := by decide
  exact passedOver_of_forall (fun c hc hmark => (h.2 c hc).2 (hmarks hmark)) depth

mutual

/-- The angle brackets of a type are balanced. -/
theorem Spells.passedOver : ∀ {t : TypeForm} {text : List Char}, Spells t text →
    ∀ depth, PassedOver depth text
  | _, _, .name htext hbefore hafter, depth =>
    (hbefore.passedOver depth).append ((htext.passedOver depth).append (hafter.passedOver depth))
  | _, _, .generic hbase hbefore hbetween harguments hafter, depth =>
    (hbefore.passedOver depth).append ((hbase.passedOver depth).append
      ((hbetween.passedOver depth).append
        ((harguments.passedOver depth).angled (hafter.passedOver depth))))
  | _, _, .array helement hafter, depth =>
    have hsuffix : PassedOver depth ['[', ']'] := passedOver_of_forall (by decide) depth
    (helement.passedOver depth).append (hsuffix.append (hafter.passedOver depth))
  | _, _, .nullable hinner hafter, depth =>
    have hsuffix : PassedOver depth ['?'] := passedOver_of_forall (by decide) depth
    (hinner.passedOver depth).append (hsuffix.append (hafter.passedOver depth))

theorem SpellsAll.passedOver : ∀ {ts : List TypeForm} {text : List Char}, SpellsAll ts text →
    ∀ depth, PassedOver (depth + 1) text
  | _, _, .last ht, depth => ht.passedOver (depth + 1)
  | _, _, .more ht hrest, depth =>
    (ht.passedOver (depth + 1)).append (hrest.passedOver depth).comma

end

/-- The arguments are cut as they were put together. -/
theorem SpellsAll.splitArguments {ts : List TypeForm} {text : List Char} (h : SpellsAll ts text) :
    List.Forall₂ Spells ts (splitArguments 0 [] text) := by
  cases h with
  | last ht =>
    have hpassed := ht.passedOver 0 [] []
    rw [List.append_nil, List.append_nil] at hpassed
    rw [hpassed, TypeText.splitArguments, List.reverse_reverse]
    exact .cons ht .nil
  | more ht hrest =>
    rw [ht.passedOver 0 [], TypeText.splitArguments, if_pos ⟨rfl, rfl⟩, List.append_nil,
      List.reverse_reverse]
    exact .cons ht hrest.splitArguments

/-! ## Reading -/

mutual

/-- What is read where a type of some form is written. -/
def TypeForm.read : TypeForm → TypeText
  | .name text => readName text
  | .generic base arguments => .generic base (readAll arguments)
  | .array element => .array element.read
  | .nullable inner => .nullable inner.read

def TypeForm.readAll : List TypeForm → List TypeText
  | [] => []
  | t :: rest => t.read :: readAll rest

end

namespace SymbolIndex

variable (index : SymbolIndex) (context : Context)

/-- White space around a name makes no difference to what it stands for. -/
theorem resolveTypeName?_ofList {before after : List Char} {name : String} (hbefore : Blanks before)
    (hname : IsTypeName name.toList) (hafter : Blanks after) :
    index.resolveTypeName? context (String.ofList (before ++ (name.toList ++ after))) =
      index.resolveTypeName? context name := by
  have htrim : trim name = name := by
    have h := trim_ofList blanks_nil hname.1 hname.not_blank blanks_nil
    rwa [List.nil_append, List.append_nil, String.ofList_toList] at h
  unfold resolveTypeName?
  rw [trim_ofList hbefore hname.1 hname.not_blank hafter, String.ofList_toList, htrim]

theorem open_not_mem {before after : List Char} {name : String} (hbefore : Blanks before)
    (hname : IsTypeName name.toList) (hafter : Blanks after) :
    '<' ∉ before ++ (name.toList ++ after) := by
  simp only [List.mem_append, not_or]
  refine ⟨fun h => ?_, fun h => (hname.2 _ h).2 (by decide), fun h => ?_⟩
  · cases hbefore _ h
  · cases hafter _ h

mutual

/-- What a written type is bound to depends on its form only. -/
theorem bind_ofChars : ∀ {t : TypeForm} {cs : List Char}, Spells t cs →
    index.bind context (ofChars cs) = index.bind context t.read
  | .name text, cs, h => by
    obtain ⟨hname, hsqueezed⟩ := squeezeChars_name h
    rw [ofChars_name hname hsqueezed, TypeForm.read]
  | .generic base arguments, cs, h => by
    obtain ⟨hbase, before, between, inner, hbefore, hbetween, harguments, hsqueezed⟩ :=
      squeezeChars_generic h
    rw [ofChars_generic (open_not_mem hbefore hbase hbetween) hsqueezed, bind,
      resolveTypeName?_ofList index context hbefore hbase hbetween,
      bindAll_map_ofChars harguments.splitArguments, TypeForm.read, bind]
  | .array element, cs, h => by
    obtain ⟨text, helement, hsqueezed⟩ := squeezeChars_array h
    rw [ofChars_array hsqueezed, bind, bind_ofChars helement, TypeForm.read, bind]
  | .nullable inner, cs, h => by
    obtain ⟨text, hinner, hsqueezed⟩ := squeezeChars_nullable h
    rw [ofChars_nullable hsqueezed, bind, bind_ofChars hinner, TypeForm.read, bind]

theorem bindAll_map_ofChars : ∀ {ts : List TypeForm} {css : List (List Char)},
    List.Forall₂ Spells ts css →
    index.bindAll context (css.map ofChars) = index.bindAll context (TypeForm.readAll ts)
  | [], _, .nil => rfl
  | t :: ts, _, .cons ht hts => by
    rw [List.map_cons, bindAll, bind_ofChars ht, bindAll_map_ofChars hts, TypeForm.readAll, bindAll]

end

end SymbolIndex

/-! ## What a type is resolved to -/

/-- What is known of a type but for the text that is shown for it. -/
def bindingOf : TypeInfo → SymbolIndex.Binding
  | .resolved type => .long type.longName
  | .unknown => .unknown
  | .unresolved => .unresolved

theorem bindingOf_resolveType (index : SymbolIndex) (context : Context) (written : String) :
    bindingOf (index.resolveType context written) = index.bind context (.ofString written) := by
  unfold SymbolIndex.resolveType
  cases index.bind context (.ofString written) <;> rfl

/-- Ways to write a type that differ in white space only are resolved alike, to the same long name
if they are resolved. -/
theorem resolveType_ignores_spacing {t : TypeForm} {first second : String}
    (hfirst : Spells t first.toList) (hsecond : Spells t second.toList) (index : SymbolIndex)
    (context : Context) : bindingOf (index.resolveType context first) =
      bindingOf (index.resolveType context second) := by
  rw [bindingOf_resolveType, bindingOf_resolveType, TypeText.ofString, TypeText.ofString,
    index.bind_ofChars context hfirst, index.bind_ofChars context hsecond]

/-- A table of lists, with white space wherever there can be some. -/
theorem resolveType_ignores_spacing_table :
    Spells (.nullable (.generic "IDictionary"
      [.name "int", .array (.generic "List" [.name "A.B"])]))
      "\tIDictionary <int ,\n List< A.B > []\r\n> ? ".toList ∧
    bindingOf (SymbolIndex.empty.resolveType ⟨["System.Collections.Generic"], "", none⟩
      "\tIDictionary <int ,\n List< A.B > []\r\n> ? ") =
      .long ("System.Collections.Generic.IDictionary<System.Int32," ++
        "System.Collections.Generic.List<A.B>[]>") := by
  have hint : IsTypeName "int".toList := by decide
  have hdotted : IsTypeName "A.B".toList := by decide
  have hlist : IsTypeName "List".toList := by decide
  have htable : IsTypeName "IDictionary".toList := by decide
  have hspace : Blanks [' '] := by decide
  have hclose : Spells _ "IDictionary<int,List<A.B>[]>?".toList :=
    .nullable (.generic htable blanks_nil blanks_nil (.more (.name hint blanks_nil blanks_nil)
      (.last (.array (.generic hlist blanks_nil blanks_nil (.last (.name hdotted blanks_nil
        blanks_nil)) blanks_nil) blanks_nil))) blanks_nil) blanks_nil
  have hspaced : Spells _ "\tIDictionary <int ,\n List< A.B > []\r\n> ? ".toList :=
    .nullable (.generic htable (by decide : Blanks ['\t']) hspace
      (.more (.name hint blanks_nil hspace) (.last (.array (.generic hlist
        (by decide : Blanks ['\n', ' ']) blanks_nil (.last (.name hdotted hspace hspace)) hspace)
          (by decide : Blanks ['\r', '\n'])))) hspace) hspace
  refine ⟨hspaced, (resolveType_ignores_spacing hspaced hclose _ _).trans ?_⟩
  decide +kernel

end CSharp

end Foresight
