import Foresight.Code.Compose
import Foresight.Code.Layout
import Foresight.Proofs.Scope.Named

/-!
# Keys identify topics

A key is the sentence of a topic: a lead, what it is about, and a tail. No lead begins another one,
and no tail ends another one, so the sentence is taken apart in one way whatever stands between them
(`Topic.eq_parts_of_key`). Only the two guards on a member share their lead, and a `!` before the
name tells them apart; a name that begins with `!` itself would undo that.
-/

namespace Foresight

open Text

namespace Topic

/-! ## Taking a key apart -/

def leads : List String :=
  ["After variable of type \"", "After call to \"", "Inside foreach loop of type \"",
    "Inside using of type \"", "If expression of type \"", "If expression \""]

def tails : List String := ["\" is null", "\" is not null", "\""]

theorem lead_mem (t : Topic) : t.lead ∈ leads := by
  cases t <;> simp [lead, leads]

theorem tail_mem (t : Topic) : t.tail ∈ tails := by
  cases t with
  | null _ isEquality => cases isEquality <;> simp [tail, tails]
  | _ => simp [tail, tails]

theorem leads_apart : ∀ a ∈ leads, ∀ b ∈ leads, a.toList <+: b.toList → a = b := by decide

theorem tails_apart : ∀ a ∈ tails, ∀ b ∈ tails, a.toList <:+ b.toList → a = b := by decide

theorem toList_key (t : Topic) : t.key.toList = t.lead.toList ++ (t.subject ++ t.tail).toList := by
  rw [key, String.append_assoc, String.toList_append]

/-- A key gives away its three parts. -/
theorem eq_parts_of_key {t t' : Topic} (h : t.key = t'.key) :
    t.lead = t'.lead ∧ t.subject = t'.subject ∧ t.tail = t'.tail := by
  have hlead : t.lead = t'.lead := by
    have hprefix : t.lead.toList <+: t'.key.toList := ⟨_, by rw [← h, toList_key]⟩
    have hprefix' : t'.lead.toList <+: t'.key.toList := ⟨_, (toList_key t').symm⟩
    rcases List.prefix_or_prefix_of_prefix hprefix hprefix' with hle | hle
    · exact leads_apart _ t.lead_mem _ t'.lead_mem hle
    · exact (leads_apart _ t'.lead_mem _ t.lead_mem hle).symm
  rw [key, key, hlead, String.append_assoc, String.append_assoc, String.append_right_inj] at h
  have htail : t.tail = t'.tail := by
    have hsuffix : t.tail.toList <:+ (t'.subject ++ t'.tail).toList :=
      ⟨_, by rw [← h, String.toList_append]⟩
    have hsuffix' : t'.tail.toList <:+ (t'.subject ++ t'.tail).toList :=
      ⟨_, by rw [String.toList_append]⟩
    rcases List.suffix_or_suffix_of_suffix hsuffix hsuffix' with hle | hle
    · exact tails_apart _ t.tail_mem _ t'.tail_mem hle
    · exact (tails_apart _ t'.tail_mem _ t.tail_mem hle).symm
  rw [htail, String.append_left_inj] at h
  exact ⟨hlead, h, htail⟩

/-- A guard on a member whose name does not begin with `!`. -/
def IsPlain : Topic → Prop
  | .guard member => beginsWith "!" member = false
  | _ => True

theorem not_isPlain_negation (member : String) : ¬ IsPlain (.guard ("!" ++ member)) := by
  intro h
  have hbegins : beginsWith "!" ("!" ++ member) = true := beginsWith_iff.mpr ⟨member, rfl⟩
  cases hbegins.symm.trans h

/-- Plain topics with one key are one. -/
theorem key_inj {t t' : Topic} (h : t.IsPlain) (h' : t'.IsPlain) : t.key = t'.key ↔ t = t' := by
  refine ⟨fun hkey => ?_, fun heq => heq ▸ rfl⟩
  obtain ⟨hlead, hsubject, htail⟩ := eq_parts_of_key hkey
  cases t with
  | null name isEquality =>
    cases t' with
    | null name' isEquality' =>
      obtain rfl : name = name' := hsubject
      obtain rfl : isEquality = isEquality' := by
        revert htail
        cases isEquality <;> cases isEquality' <;> simp [tail]
      rfl
    | _ => simp [lead] at hlead
  | guard member =>
    cases t' with
    | guard member' => exact congrArg _ hsubject
    | negatedGuard member' =>
      obtain rfl : member = "!" ++ member' := hsubject
      exact absurd h (not_isPlain_negation member')
    | _ => simp [lead] at hlead
  | negatedGuard member =>
    cases t' with
    | guard member' =>
      obtain rfl : "!" ++ member = member' := hsubject
      exact absurd h' (not_isPlain_negation member)
    | negatedGuard member' => exact congrArg _ (String.append_right_inj "!" |>.mp hsubject)
    | _ => simp [lead] at hlead
  | _ => cases t' <;> simp_all [lead, subject]

end Topic

/-! ## Scopes of statements -/

namespace SourceFile

/-- What a statement of a file is about. -/
def TopicAt (file : SourceFile) (id : StatementId) (t : Topic) : Prop :=
  ∃ s c, file.get? id = some s ∧ Names c s.kind t

theorem topicAt_of_kind {file : SourceFile} {id : StatementId} {kind : StatementKind}
    {c : Classifier} {t : Topic} (hkind : (file.get? id).map (·.kind) = some kind)
    (h : Names c kind t) : file.TopicAt id t := by
  obtain ⟨s, hs, rfl⟩ := Option.map_eq_some_iff.mp hkind
  exact ⟨s, c, hs, h⟩

theorem TopicAt.unique {file : SourceFile} {id : StatementId} {t t' : Topic}
    (h : file.TopicAt id t) (h' : file.TopicAt id t') : t = t' := by
  obtain ⟨s, c, hs, hnames⟩ := h
  obtain ⟨s', c', hs', hnames'⟩ := h'
  obtain rfl := Option.some.inj (hs.symm.trans hs')
  exact (hnames.unique hnames').2

/-- A plain topic leaves no other one that begins with a mark. -/
theorem TopicAt.plain {file : SourceFile} {id : StatementId} {t : Topic} (h : file.TopicAt id t)
    (hplain : t.IsPlain) (member : String) (hmember : file.TopicAt id (.guard member)) :
    beginsWith "!" member = false := by
  cases h.unique hmember
  exact hplain

/-- Where there is a scope there is one topic, and the key spells it. -/
theorem exists_topicAt {p : Pipeline} {file : SourceFile} {id : StatementId} {scope : Scope}
    (h : scope ∈ p.scopesFor file id) :
    ∃ t, (∀ u, file.TopicAt id u ↔ u = t) ∧ scope.key = t.key := by
  unfold Pipeline.scopesFor at h
  split at h
  · cases h
  · rename_i s hs
    obtain ⟨c, -, hc⟩ := List.mem_filterMap.mp h
    obtain ⟨t, hnames, hkey⟩ := Classifier.exists_names_of_handle? hc
    have hat : file.TopicAt id t := ⟨s, c, hs, hnames⟩
    exact ⟨t, fun u => ⟨fun hu => hu.unique hat, fun hu => hu ▸ hat⟩, hkey⟩

/-- Two scopes, of any statements of any files, have one key exactly if their statements are about
one topic: the same family of positions and the same type, method or member. Nothing else that is
written in the statements has an influence on their keys. -/
theorem keys_identify_topics {file file' : SourceFile} {id id' : StatementId}
    {scope scope' : Scope} (hscope : scope ∈ Pipeline.standard.scopesFor file id)
    (hscope' : scope' ∈ Pipeline.standard.scopesFor file' id')
    (hplain : ∀ member, file.TopicAt id (.guard member) → beginsWith "!" member = false)
    (hplain' : ∀ member, file'.TopicAt id' (.guard member) → beginsWith "!" member = false) :
    ∃ t t', (∀ u, file.TopicAt id u ↔ u = t) ∧ (∀ u, file'.TopicAt id' u ↔ u = t') ∧
      (scope.key = scope'.key ↔ t = t') := by
  have isPlain : ∀ {file : SourceFile} {id : StatementId} {t : Topic}, file.TopicAt id t →
      (∀ member, file.TopicAt id (.guard member) → beginsWith "!" member = false) → t.IsPlain := by
    intro file id t hat hplain
    cases t with
    | guard member => exact hplain member hat
    | _ => exact trivial
  obtain ⟨t, ht, hkey⟩ := exists_topicAt hscope
  obtain ⟨t', ht', hkey'⟩ := exists_topicAt hscope'
  refine ⟨t, t', ht, ht', ?_⟩
  rw [hkey, hkey']
  exact Topic.key_inj (isPlain ((ht t).mpr rfl) hplain) (isPlain ((ht' t').mpr rfl) hplain')

/-! A variable that is declared in one file and assigned in another, under other names and with
other values, and a member that guards once and is negated once. -/

section Bags

def bagType : TypeRef := ⟨"Bag", "App.Bag"⟩

def loud : Member := .property "Loud" ⟨"App", "Settings"⟩

def isLoud : Expression :=
  .member (some (.typeName ⟨"App", "Settings"⟩)) "Loud" (some loud) .unknown

def declaring : SourceFile :=
  (Outline.new "Bags.cs" |>.method
    [.local_ "bag" bagType (.create ⟨"App", "Bag"⟩ []), .ifThen isLoud []]).finish

def assigning : SourceFile :=
  (Outline.new "Shop.cs" |>.method
    [.expression
        (.assign (.local_ "order" (.resolved bagType)) (.local_ "spare" (.resolved bagType))),
      .ifThen (.unary "!" isLoud .unknown) []]).finish

theorem keys_identify_topics_bags :
    (∃ scope ∈ Pipeline.standard.scopesFor declaring 0,
      ∃ scope' ∈ Pipeline.standard.scopesFor assigning 0,
        declaring.TopicAt 0 (.variable_ bagType.longName) ∧
        assigning.TopicAt 0 (.variable_ bagType.longName) ∧ scope.key = scope'.key) ∧
    ∃ scope ∈ Pipeline.standard.scopesFor declaring 2,
      ∃ scope' ∈ Pipeline.standard.scopesFor assigning 2,
        declaring.TopicAt 2 (.guard loud.typeQualifiedName) ∧
        assigning.TopicAt 2 (.negatedGuard loud.typeQualifiedName) ∧ scope.key ≠ scope'.key := by
  have hkind : (declaring.get? 0).map (·.kind) = some (.declaration
      [⟨"bag", .resolved bagType, false, "Bag", some (.create ⟨"App", "Bag"⟩ [])⟩]) := rfl
  have hdeclared : declaring.TopicAt 0 (.variable_ bagType.longName) :=
    topicAt_of_kind hkind (.declared rfl rfl)
  have hassigned : assigning.TopicAt 0 (.variable_ bagType.longName) :=
    topicAt_of_kind rfl (.assigned rfl rfl rfl rfl)
  have hguard : declaring.TopicAt 2 (.guard loud.typeQualifiedName) :=
    topicAt_of_kind rfl (.guarded rfl)
  have hnegated : assigning.TopicAt 2 (.negatedGuard loud.typeQualifiedName) :=
    topicAt_of_kind rfl (.negated rfl rfl)
  constructor
  · refine ⟨_, .head _, _, .head _, hdeclared, hassigned, ?_⟩
    obtain ⟨t, t', ht, ht', hkeys⟩ := keys_identify_topics
      (.head _) (.head _) (hdeclared.plain trivial) (hassigned.plain trivial)
    exact hkeys.mpr (((ht _).mp hdeclared).symm.trans ((ht' _).mp hassigned))
  · refine ⟨_, .head _, _, .head _, hguard, hnegated, fun hkey => ?_⟩
    obtain ⟨t, t', ht, ht', hkeys⟩ := keys_identify_topics
      (.head _) (.head _) (hguard.plain rfl) (hnegated.plain trivial)
    cases ((ht _).mp hguard).trans ((hkeys.mp hkey).trans ((ht' _).mp hnegated).symm)

end Bags

end SourceFile

end Foresight
