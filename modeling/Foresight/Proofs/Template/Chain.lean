import Foresight.Proofs.Template.Reading

/-!
# Templates as chains

A template is a chain: text, a placeholder, text behind it, and so on. Filling a placeholder of a
chain puts its value in the place of each of its occurrences, and the texts around it grow together
(`Chain.fill`).

Replacement does not know of placeholders. It takes any `$name$` that it meets from the left, and
the text between two placeholders has a mark on both sides as well. So it fills the placeholder only
where nothing between two others is spelled like its name (`replace_write`). It is enough that a
character which no name has keeps placeholders apart (`Spaced`); then each replacement leaves
another chain that is spaced, with this placeholder gone (`spaced_fill`, `names_fill`), and what is
left of the others is found where it stood (`contains_write_iff`).
-/

namespace Foresight.Template

/-- Text, and perhaps a placeholder behind it and what follows. -/
inductive Chain where
  | last (text : String)
  | hole (before name : String) (rest : Chain)

namespace Chain

def write : Chain → String
  | last text => text
  | hole before name rest => before ++ placeholder name ++ rest.write

def names : Chain → List String
  | last _ => []
  | hole _ name rest => name :: rest.names

/-- There is no mark in its texts and names. -/
def IsClear : Chain → Prop
  | last text => Clear text
  | hole before name rest => Clear before ∧ Clear name ∧ rest.IsClear

/-- The text in front of the first placeholder. -/
def lead : Chain → String
  | last text => text
  | hole before _ _ => before

/-- The text behind the last placeholder. -/
def tail : Chain → String
  | last text => text
  | hole _ _ rest => rest.tail

def prepend (text : String) : Chain → Chain
  | last more => last (text ++ more)
  | hole before name rest => hole (text ++ before) name rest

def append : Chain → Chain → Chain
  | last text, c => c.prepend text
  | hole before name rest, c => hole before name (rest.append c)

/-- Puts a value in the place of each placeholder of a name. -/
def fill (name value : String) : Chain → Chain
  | last text => last text
  | hole before other rest =>
    if other = name then (rest.fill name value).prepend (before ++ value)
    else hole before other (rest.fill name value)

theorem write_prepend (text : String) (c : Chain) : (c.prepend text).write = text ++ c.write := by
  cases c with
  | last more => rfl
  | hole before name rest => simp only [prepend, write, String.append_assoc]

theorem write_append (c d : Chain) : (c.append d).write = c.write ++ d.write := by
  induction c with
  | last text => exact write_prepend text d
  | hole before name rest ih => simp only [append, write, ih, String.append_assoc]

theorem names_prepend (text : String) (c : Chain) : (c.prepend text).names = c.names := by
  cases c <;> rfl

theorem lead_prepend (text : String) (c : Chain) : (c.prepend text).lead = text ++ c.lead := by
  cases c <;> rfl

theorem IsClear.prepend {c : Chain} (h : c.IsClear) {text : String} (htext : Clear text) :
    (c.prepend text).IsClear := by
  cases c with
  | last more => exact clear_append.mpr ⟨htext, h⟩
  | hole before name rest =>
    obtain ⟨hbefore, hname, hrest⟩ := h
    exact ⟨clear_append.mpr ⟨htext, hbefore⟩, hname, hrest⟩

theorem IsClear.append {c d : Chain} (h : c.IsClear) (h' : d.IsClear) : (c.append d).IsClear := by
  induction c with
  | last text => exact h'.prepend h
  | hole before name rest ih =>
    obtain ⟨hbefore, hname, hrest⟩ := h
    exact ⟨hbefore, hname, ih hrest⟩

/-! ## Reading -/

theorem IsClear.reads {c : Chain} (h : c.IsClear) : Reads c.write c.names := by
  induction c with
  | last text => exact .text h
  | hole before name rest ih =>
    obtain ⟨hbefore, hname, hrest⟩ := h
    exact .hole hbefore hname (ih hrest)

theorem IsClear.placeholders_write {c : Chain} (h : c.IsClear) : placeholders c.write = c.names :=
  h.reads.splitAt.2

/-- What is read as placeholders and text between them is a chain. -/
theorem exists_chain {template : String} {names : List String} (h : Reads template names) :
    ∃ c : Chain, c.IsClear ∧ c.write = template ∧ c.names = names := by
  induction h with
  | text h => exact ⟨.last _, h, rfl, rfl⟩
  | hole htext hname _ ih =>
    obtain ⟨c, hclear, rfl, rfl⟩ := ih
    exact ⟨.hole _ _ c, ⟨htext, hname, hclear⟩, rfl, rfl⟩

/-! ## Filling -/

theorem names_fill (name value : String) (c : Chain) :
    (c.fill name value).names = c.names.filter (· ≠ name) := by
  induction c with
  | last text => rfl
  | hole before other rest ih =>
    unfold fill
    split
    · rename_i heq
      rw [names_prepend, ih, names, List.filter_cons_of_neg (by simpa using heq)]
    · rename_i hne
      rw [names, ih, names, List.filter_cons_of_pos (by simpa using hne)]

theorem IsClear.fill {c : Chain} (h : c.IsClear) (name : String) {value : String}
    (hvalue : Clear value) : (c.fill name value).IsClear := by
  induction c with
  | last text => exact h
  | hole before other rest ih =>
    obtain ⟨hbefore, hother, hrest⟩ := h
    unfold Chain.fill
    split
    · exact (ih hrest).prepend (clear_append.mpr ⟨hbefore, hvalue⟩)
    · exact ⟨hbefore, hother, ih hrest⟩

/-- The text in front only grows. -/
theorem exists_lead_fill (name value : String) (c : Chain) :
    ∃ more, (c.fill name value).lead = c.lead ++ more := by
  cases c with
  | last text => exact ⟨"", (String.append_empty ..).symm⟩
  | hole before other rest =>
    unfold fill
    split
    · exact ⟨_, by rw [lead_prepend, String.append_assoc]; rfl⟩
    · exact ⟨"", (String.append_empty ..).symm⟩

/-! ## Spacing -/

section Spacing

variable (sep : Char → Prop) (free : String → Prop)

/-- A text keeps what is in front of it apart from what is behind it. -/
def Parts (text : String) : Prop := ∃ c ∈ text.toList, sep c

/-- Between a placeholder and the next one there is text that keeps them apart, if they are not two
that may stand next to each other. -/
def Follows (name : String) : Chain → Prop
  | last _ => True
  | hole before next _ => Parts sep before ∨ free name ∧ free next

/-- Every placeholder is kept apart from the next one. -/
def Spaced : Chain → Prop
  | last _ => True
  | hole _ name rest => rest.Follows sep free name ∧ rest.Spaced

/-- A placeholder may be put behind. -/
def Ready (c : Chain) : Prop := c.names = [] ∨ Parts sep c.tail

variable {sep free} {c d : Chain}

theorem Parts.append_left {text : String} (h : Parts sep text) (more : String) :
    Parts sep (text ++ more) := by
  obtain ⟨x, hx, hsep⟩ := h
  exact ⟨x, by rw [String.toList_append]; exact List.mem_append_left _ hx, hsep⟩

theorem Parts.append_right {more : String} (h : Parts sep more) (text : String) :
    Parts sep (text ++ more) := by
  obtain ⟨x, hx, hsep⟩ := h
  exact ⟨x, by rw [String.toList_append]; exact List.mem_append_right _ hx, hsep⟩

theorem follows_of_lead (h : Parts sep c.lead) (name : String) : c.Follows sep free name := by
  cases c with
  | last text => trivial
  | hole before next rest => exact Or.inl h

theorem Spaced.prepend (h : c.Spaced sep free) (text : String) :
    (c.prepend text).Spaced sep free := by
  cases c with
  | last more => trivial
  | hole before name rest => exact h

/-- Chains with text between them that keeps placeholders apart are one that is spaced. -/
theorem Spaced.append (h : c.Spaced sep free) (hready : c.Ready sep) (h' : d.Spaced sep free) :
    (c.append d).Spaced sep free := by
  induction c with
  | last text => exact h'.prepend text
  | hole before name rest ih =>
    obtain ⟨hfollows, hrest⟩ := h
    have htail : Parts sep rest.tail := hready.resolve_left (List.cons_ne_nil name rest.names)
    refine ⟨?_, ih hrest (Or.inr htail)⟩
    cases rest with
    | last text =>
      refine follows_of_lead ?_ name
      rw [Chain.append, lead_prepend]
      exact htail.append_left _
    | hole _ _ _ => exact hfollows

/-- Text may be put behind a chain in any case. -/
theorem Spaced.append_text (h : c.Spaced sep free) (text : String) :
    (c.append (.last text)).Spaced sep free := by
  induction c with
  | last _ => trivial
  | hole before name rest ih =>
    obtain ⟨hfollows, hrest⟩ := h
    refine ⟨?_, ih hrest⟩
    cases rest with
    | last _ => trivial
    | hole _ _ _ => exact hfollows

theorem tail_append_text (c : Chain) (text : String) :
    (c.append (.last text)).tail = c.tail ++ text := by
  induction c with
  | last _ => rfl
  | hole _ _ _ ih => exact ih

theorem ready_append_text (c : Chain) {text : String} (h : Parts sep text) :
    (c.append (.last text)).Ready sep := by
  refine Or.inr ?_
  rw [tail_append_text]
  exact h.append_right _

theorem Spaced.mono {free' : String → Prop} (h : c.Spaced sep free)
    (hle : ∀ name, free name → free' name) : c.Spaced sep free' := by
  induction c with
  | last _ => trivial
  | hole before name rest ih =>
    obtain ⟨hfollows, hrest⟩ := h
    refine ⟨?_, ih hrest⟩
    cases rest with
    | last _ => trivial
    | hole _ next _ => exact hfollows.imp_right fun h => ⟨hle name h.1, hle next h.2⟩

/-- A chain of placeholders that may all stand next to each other is spaced. -/
theorem spaced_of_free (h : ∀ name ∈ c.names, free name) : c.Spaced sep free := by
  induction c with
  | last _ => trivial
  | hole before name rest ih =>
    obtain ⟨hname, hrest⟩ := List.forall_mem_cons.mp h
    refine ⟨?_, ih hrest⟩
    cases rest with
    | last _ => trivial
    | hole _ next _ => exact Or.inr ⟨hname, hrest next List.mem_cons_self⟩

section Fill

variable {name : String} (hfree : ∀ other, free other → other = name)

include hfree

/-- If no others than the placeholder that is filled may stand next to each other, none may
afterwards. -/
theorem spaced_fill (h : c.Spaced sep free) (value : String) :
    (c.fill name value).Spaced sep (fun _ => False) := by
  induction c with
  | last text => trivial
  | hole before other rest ih =>
    obtain ⟨hfollows, hrest⟩ := h
    unfold fill
    split
    · exact (ih hrest).prepend _
    · rename_i hother
      refine ⟨?_, ih hrest⟩
      cases rest with
      | last text => trivial
      | hole between next rest =>
        have hparts : Parts sep between :=
          hfollows.resolve_right fun h => hother (hfree other h.1)
        obtain ⟨more, hlead⟩ := exists_lead_fill name value (.hole between next rest)
        exact follows_of_lead (hlead ▸ hparts.append_left more) other

/-! ## Replacing -/

omit hfree in
/-- Of two texts without a mark, with a mark behind each, one begins with the other only if they
are one. -/
theorem eq_of_isPrefix {a b rest : List Char} (ha : '$' ∉ a) (hb : '$' ∉ b)
    (h : a ++ ['$'] <+: b ++ '$' :: rest) : a = b := by
  obtain ⟨more, hmore⟩ := h
  have hmark : ∀ {l : List Char}, '$' ∉ l → ∀ c ∈ l, (c == '$') = false :=
    fun hl c hc => beq_false_of_ne fun heq => hl (heq ▸ hc)
  rw [List.append_assoc, List.singleton_append] at hmore
  have hpieces := congrArg (Text.pieces (· == '$')) hmore
  rw [Text.pieces_append_cons (hmark ha) rfl, Text.pieces_append_cons (hmark hb) rfl] at hpieces
  exact (List.cons.inj hpieces).1

omit hfree in
theorem toList_write_hole (before name : String) (rest : Chain) :
    (hole before name rest).write.toList =
      before.toList ++ ('$' :: (name.toList ++ '$' :: rest.write.toList)) := by
  simp [write, placeholder]

/-- No occurrence of a placeholder begins with the mark that closes another one. -/
theorem not_closing (hclear : c.IsClear) (hname : Clear name) (hsep : ¬ Parts sep name)
    {other : String} (hother : other ≠ name) (hfollows : c.Follows sep free other) :
    ¬ name.toList ++ ['$'] <+: c.write.toList := by
  intro h
  cases c with
  | last text =>
    obtain ⟨more, hmore⟩ := h
    refine hclear ?_
    rw [show (last text).write = text from rfl] at hmore
    rw [← hmore]
    simp
  | hole before next rest =>
    rw [toList_write_hole] at h
    have hbefore : before = name := String.toList_inj.mp (eq_of_isPrefix hname hclear.1 h).symm
    rcases hfollows with hparts | ⟨hother', -⟩
    · exact hsep (hbefore ▸ hparts)
    · exact hother (hfree other hother')

/-- Replacing what is spelled like a placeholder fills the placeholder, and changes nothing else. -/
theorem replace_write (hclear : c.IsClear) (hspaced : c.Spaced sep free) (hname : Clear name)
    (hsep : ¬ Parts sep name) (value : String) :
    Text.replace (placeholder name) value c.write = (c.fill name value).write := by
  have hpattern : (placeholder name).toList = '$' :: (name.toList ++ ['$']) := by
    simp [placeholder]
  refine String.toList_inj.mp ?_
  rw [Text.replace, String.toList_ofList, hpattern]
  induction c with
  | last text =>
    have hkept : Text.substitute ('$' :: (name.toList ++ ['$'])) value.toList 0
        (text.toList ++ []) = text.toList ++ [] := Text.substitute_append_of_not_mem hclear []
    rwa [List.append_nil] at hkept
  | hole before other rest ih =>
    obtain ⟨hbefore, hother, hrest⟩ := hclear
    obtain ⟨hfollows, hspaced⟩ := hspaced
    rw [toList_write_hole, Text.substitute_append_of_not_mem hbefore]
    unfold fill
    split
    · rename_i heq
      subst heq
      have hoccurrence : '$' :: (other.toList ++ '$' :: rest.write.toList) =
          '$' :: (other.toList ++ ['$']) ++ rest.write.toList := by simp
      rw [hoccurrence, Text.substitute_occurrence, ih hrest hspaced, write_prepend]
      simp
    · rename_i hne
      have hopening : ¬ '$' :: (name.toList ++ ['$']) <+:
          '$' :: (other.toList ++ '$' :: rest.write.toList) := fun h =>
        hne (String.toList_inj.mp
          (eq_of_isPrefix hname hother (List.cons_prefix_cons.mp h).2)).symm
      have hclosing : ¬ '$' :: (name.toList ++ ['$']) <+: '$' :: rest.write.toList := fun h =>
        not_closing hfree hrest hname hsep hne hfollows (List.cons_prefix_cons.mp h).2
      rw [Text.substitute_cons_of_mismatch hopening, Text.substitute_append_of_not_mem hother,
        Text.substitute_cons_of_mismatch hclosing, ih hrest hspaced, toList_write_hole]

end Fill

/-! ## Finding -/

/-- A piece with a mark on both sides is a placeholder, or the text between two of them. -/
theorem mem_names_of_splitAt (hclear : c.IsClear) (hspaced : c.Spaced sep fun _ => False)
    {name : String} (hsep : ¬ Parts sep name) {before after : List String}
    (h : Text.splitAt '$' c.write = before ++ name :: after) (hbefore : before ≠ [])
    (hafter : after ≠ []) : name ∈ c.names := by
  induction c generalizing before with
  | last text =>
    rw [write, Text.splitAt_of_not_mem hclear] at h
    have hlength := congrArg List.length h
    have hpos := List.length_pos_iff.mpr hbefore
    rw [List.length_singleton, List.length_append, List.length_cons] at hlength
    omega
  | hole lead other rest ih =>
    obtain ⟨hlead, hother, hrest⟩ := hclear
    obtain ⟨hfollows, hspaced⟩ := hspaced
    rw [write, splitAt_placeholder hlead hother] at h
    rcases before with _ | ⟨first, _ | ⟨second, before⟩⟩
    · exact absurd rfl hbefore
    · obtain rfl := (List.cons.inj (List.cons.inj h).2).1
      exact List.mem_cons_self
    · have htail := (List.cons.inj (List.cons.inj h).2).2
      cases before with
      | cons third before =>
        exact List.mem_cons_of_mem _ (ih hrest hspaced htail (List.cons_ne_nil third before))
      | nil =>
        -- The piece is the text in front of what follows, which keeps placeholders apart.
        cases rest with
        | last text =>
          rw [write, Text.splitAt_of_not_mem hrest] at htail
          exact absurd (List.cons.inj htail).2.symm hafter
        | hole between next rest =>
          rw [write, splitAt_placeholder hrest.1 hrest.2.1] at htail
          obtain rfl := (List.cons.inj htail).1
          exact (hsep (hfollows.resolve_right And.left)).elim

theorem infix_write {name : String} (h : name ∈ c.names) :
    (placeholder name).toList <:+: c.write.toList := by
  induction c with
  | last text => cases h
  | hole before other rest ih =>
    rw [write, String.toList_append, String.toList_append]
    rcases List.mem_cons.mp h with rfl | h
    · exact ⟨before.toList, rest.write.toList, rfl⟩
    · exact (ih h).trans (List.suffix_append _ _).isInfix

/-- Of a chain that is spaced, a placeholder is found where there is one. -/
theorem contains_write_iff (hclear : c.IsClear) (hspaced : c.Spaced sep fun _ => False)
    {name : String} (hname : Clear name) (hsep : ¬ Parts sep name) :
    Text.contains (placeholder name) c.write = true ↔ name ∈ c.names := by
  rw [Text.contains_iff]
  refine ⟨fun h => ?_, infix_write⟩
  obtain ⟨before, after, hwrite⟩ := h
  have hchars : c.write.toList = before ++ '$' :: (name.toList ++ '$' :: after) := by
    rw [← hwrite]
    simp [placeholder]
  have hname' : ∀ a ∈ name.toList, (a == '$') = false := fun a ha =>
    beq_false_of_ne fun heq => hname (heq ▸ ha)
  have hsplit : Text.splitAt '$' c.write =
      (Text.pieces (· == '$') before).map String.ofList ++
        name :: (Text.pieces (· == '$') after).map String.ofList := by
    rw [Text.splitAt, hchars, Text.pieces_append_separator before rfl,
      Text.pieces_append_cons hname' rfl, List.map_append, List.map_cons, String.ofList_toList]
  have hne : ∀ text : List Char, (Text.pieces (· == '$') text).map String.ofList ≠ [] := by
    intro text
    obtain ⟨first, more, hpieces⟩ := Text.exists_pieces_eq (p := (· == '$')) text
    rw [hpieces]
    exact List.cons_ne_nil _ _
  exact mem_names_of_splitAt hclear hspaced hsep hsplit (hne before) (hne after)

end Spacing

end Chain

end Foresight.Template
