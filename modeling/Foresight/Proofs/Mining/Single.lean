import Foresight.Code.Compose
import Foresight.Code.Layout
import Foresight.Proofs.Mining.Frame
import Foresight.Proofs.Scope.Named

/-!
# One observation for a statement

The cheap checks overlap: two classifiers accept a statement that assigns, and the builder of calls
accepts what is none. What comes of it does not overlap. A statement has one classifier that finds a
topic there, and one builder by its shape (`Builder.of?`). Both pass their own check, so nothing is
lost by asking it first, and each entry of a walk makes at most one observation
(`analyzeFile_counts_once`).
-/

namespace Foresight

/-- Where everything that has an answer is the same, there is at most one answer. -/
theorem length_filterMap_le_one {α β : Type} {f : α → Option β} {l : List α} (hl : l.Nodup)
    (h : ∀ a ∈ l, ∀ b ∈ l, (f a).isSome = true → (f b).isSome = true → a = b) :
    (l.filterMap f).length ≤ 1 := by
  induction l with
  | nil => exact Nat.zero_le 1
  | cons a rest ih =>
    obtain ⟨ha, hrest⟩ := List.nodup_cons.mp hl
    cases hfa : f a with
    | none =>
      rw [List.filterMap_cons_none hfa]
      exact ih hrest fun b hb c hc =>
        h b (List.mem_cons_of_mem _ hb) c (List.mem_cons_of_mem _ hc)
    | some y =>
      have hnone : rest.filterMap f = [] := List.filterMap_eq_nil_iff.mpr fun b hb => by
        refine Option.not_isSome_iff_eq_none.mp fun hfb => ha ?_
        rwa [h a List.mem_cons_self b (List.mem_cons_of_mem _ hb) (by rw [hfa]; rfl) hfb]
      rw [List.filterMap_cons_some hfa, hnone]
      exact Nat.le_refl 1

/-- A check that everything with an answer passes can be left out. -/
theorem filterMap_filter_of_isSome {α β : Type} {p : α → Bool} {f : α → Option β}
    (h : ∀ a, (f a).isSome = true → p a = true) (l : List α) :
    (l.filter p).filterMap f = l.filterMap f := by
  rw [List.filterMap_filter]
  congr 1
  funext a
  split
  · rfl
  · rename_i hp
    exact (Option.not_isSome_iff_eq_none.mp fun ha => hp (h a ha)).symm

/-- A list of at most one item is that item. -/
theorem toList_head? {α : Type} {l : List α} (h : l.length ≤ 1) : l.head?.toList = l := by
  match l, h with
  | [], _ => rfl
  | [a], _ => rfl

/-! ## Classifiers -/

namespace Classifier

variable {c c' : Classifier} {anchor : StatementId} {kind : StatementKind}

theorem canHandle_of_handle? (h : (c.handle? anchor kind).isSome = true) :
    c.canHandle kind = true := by
  obtain ⟨scope, hscope⟩ := Option.isSome_iff_exists.mp h
  obtain ⟨t, hnames, -⟩ := exists_names_of_handle? hscope
  cases hnames with
  | assigned hshape => rw [canHandle, hshape]
  | assignedUntyped hshape => rw [canHandle, hshape]
  | compared => exact Option.isSome_of_isSome_bind h
  | guarded hshape => rw [canHandle, referredMember?, hshape]; rfl
  | negated hshape hmember => exact Option.isSome_of_isSome_bind h
  | _ => rfl

theorem handle?_unique (h : (c.handle? anchor kind).isSome = true)
    (h' : (c'.handle? anchor kind).isSome = true) : c = c' := by
  obtain ⟨scope, hscope⟩ := Option.isSome_iff_exists.mp h
  obtain ⟨scope', hscope'⟩ := Option.isSome_iff_exists.mp h'
  obtain ⟨t, hnames, -⟩ := exists_names_of_handle? hscope
  obtain ⟨t', hnames', -⟩ := exists_names_of_handle? hscope'
  exact (hnames.unique hnames').1

end Classifier

/-! ## Builders -/

namespace Builder

/-- The builder that a shape belongs to. -/
def of? : StatementKind → Option Builder
  | .expression _ => some .invocation
  | .declaration _ => some .localVariable
  | .if_ .. => some .if_
  | .while_ .. => some .while_
  | .doWhile .. => some .doWhile
  | .foreach .. => some .foreach
  | .try_ _ [] _ => some .tryFinally
  | .try_ _ (_ :: _) _ => some .tryCatch
  | .return_ _ => some .return_
  | .break_ => some .break_
  | .continue_ => some .continue_
  | _ => none

variable {b b' : Builder} {kind : StatementKind}

/-- The checks of builders exclude each other; those that are about a `try` read its clauses. -/
theorem of?_of_canHandle (h : b.canHandle kind = true) : of? kind = some b := by
  cases kind with
  | try_ body catches finally_ =>
    cases catches <;> cases finally_ <;> cases b <;> first | rfl | cases h
  | _ => cases b <;> first | rfl | cases h

theorem canHandle_unique (h : b.canHandle kind = true) (h' : b'.canHandle kind = true) : b = b' :=
  Option.some.inj ((of?_of_canHandle h).symm.trans (of?_of_canHandle h'))

theorem canHandle_of_template? {text : String} {parameters : Fields}
    (h : (b.template? kind text parameters).isSome = true) : b.canHandle kind = true := by
  cases kind with
  | try_ body catches finally_ =>
    cases catches <;> cases finally_ <;> cases b <;> first | rfl | cases h
  | _ => cases b <;> first | rfl | cases h

theorem canHandle_of_build? {file : SourceFile} {s : Statement} {scope : Scope}
    (h : (b.build? file s scope).isSome = true) : b.canHandle s.kind = true :=
  canHandle_of_template? (Option.isSome_map.symm.trans h)

end Builder

/-! ## Files -/

namespace Pipeline

variable {file : SourceFile} {id : StatementId} {s : Statement} {scope : Scope}

theorem scopesFor_standard (hs : file.get? id = some s) :
    standard.scopesFor file id = Classifier.standard.filterMap (·.handle? id s.kind) := by
  rw [scopesFor, hs]
  exact filterMap_filter_of_isSome (fun _ => Classifier.canHandle_of_handle?) Classifier.standard

theorem observationsUnder_standard {next : StatementId} {n : Statement}
    (hnext : scope.nextStatement? file = some next) (hn : file.get? next = some n) :
    standard.observationsUnder file scope =
      Builder.standard.filterMap (·.build? file n scope) := by
  rw [observationsUnder_of_next standard hnext hn]
  exact filterMap_filter_of_isSome (fun _ => Builder.canHandle_of_build?) Builder.standard

theorem length_handle?_le_one (kind : StatementKind) :
    (Classifier.standard.filterMap (·.handle? id kind)).length ≤ 1 :=
  length_filterMap_le_one (by decide) fun _ _ _ _ => Classifier.handle?_unique

theorem length_build?_le_one (file : SourceFile) (n : Statement) (scope : Scope) :
    (Builder.standard.filterMap (·.build? file n scope)).length ≤ 1 :=
  length_filterMap_le_one (by decide) fun _ _ _ _ h h' =>
    Builder.canHandle_unique (Builder.canHandle_of_build? h) (Builder.canHandle_of_build? h')

theorem length_scopesFor_le_one (file : SourceFile) (id : StatementId) :
    (standard.scopesFor file id).length ≤ 1 := by
  cases hs : file.get? id with
  | none => simp [scopesFor, hs]
  | some s =>
    rw [scopesFor_standard hs]
    exact length_handle?_le_one s.kind

theorem length_observationsUnder_le_one (file : SourceFile) (scope : Scope) :
    (standard.observationsUnder file scope).length ≤ 1 := by
  unfold observationsUnder
  split
  · exact Nat.zero_le 1
  · rename_i n hn
    rw [filterMap_filter_of_isSome fun _ => Builder.canHandle_of_build?]
    exact length_build?_le_one file n scope

/-! ## Counting -/

/-- What a statement is counted for: the template that follows in its scope. -/
def observationAt? (file : SourceFile) (fileId : String) (id : StatementId) :
    Option Observation :=
  (standard.scopesFor file id).head?.bind fun scope =>
    (standard.observationsUnder file scope).head?.map fun o => { o with file := fileId }

theorem toList_observationAt? (file : SourceFile) (fileId : String) (id : StatementId) :
    (observationAt? file fileId id).toList =
      (standard.scopesFor file id).flatMap fun scope =>
        (standard.observationsUnder file scope).map fun o => { o with file := fileId } := by
  rw [observationAt?]
  conv_rhs => rw [← toList_head? (length_scopesFor_le_one file id)]
  cases (standard.scopesFor file id).head? with
  | none => rfl
  | some scope =>
    conv_rhs => rw [Option.toList_some, List.flatMap_singleton,
      ← toList_head? (length_observationsUnder_le_one file scope)]
    rw [Option.bind_some]
    cases (standard.observationsUnder file scope).head? <;> rfl

/-- Whatever has an answer passes the check that is asked first, so no scope and no template is
filtered away; a statement opens at most one scope, and has at most one template in a scope; and so
each statement of the walk is counted once at most, in the order of the walk. -/
theorem analyzeFile_counts_once (file : SourceFile) (fileId : String) :
    (∀ id s, file.get? id = some s →
      (∀ c : Classifier, (c.handle? id s.kind).isSome = true → c.canHandle s.kind = true) ∧
      (∀ (b : Builder) (scope : Scope), (b.build? file s scope).isSome = true →
        b.canHandle s.kind = true) ∧
      (Classifier.standard.filterMap (·.handle? id s.kind)).length ≤ 1 ∧
      (∀ scope, (Builder.standard.filterMap (·.build? file s scope)).length ≤ 1) ∧
      standard.scopesFor file id = Classifier.standard.filterMap (·.handle? id s.kind) ∧
      ∀ scope : Scope, scope.nextStatement? file = some id →
        standard.observationsUnder file scope =
          Builder.standard.filterMap (·.build? file s scope)) ∧
    standard.analyzeFile file fileId = file.walk.filterMap (observationAt? file fileId) := by
  constructor
  · intro id s hs
    exact ⟨fun _ => Classifier.canHandle_of_handle?, fun _ _ => Builder.canHandle_of_build?,
      length_handle?_le_one s.kind, length_build?_le_one file s, scopesFor_standard hs,
      fun scope hnext => observationsUnder_standard hnext hs⟩
  · rw [analyzeFile, List.filterMap_eq_flatMap_toList]
    exact List.flatMap_congr fun id _ => (toList_observationAt? file fileId id).symm

/-! An assignment, which two classifiers accept, and a call behind it. -/

def orders : SourceFile :=
  let order := Expression.local_ "order" (.resolved ⟨"Order", "App.Order"⟩)
  (Outline.new "Orders.cs" |>.method
    [.expression (.assign order (.create ⟨"App", "Order"⟩ [])),
      .expression (.call (some order) "Send" (some (.method "Send" ⟨"App", "Order"⟩)) []
        .unknown)]).finish

theorem analyzeFile_counts_once_orders :
    (∃ s, orders.get? 0 = some s ∧
      Classifier.standard.filter (·.canHandle s.kind) = [.invocation, .assignment] ∧
      (Classifier.standard.filterMap (·.handle? 0 s.kind)).length ≤ 1) ∧
    (∃ n, orders.get? 1 = some n ∧ ∀ scope ∈ standard.scopesFor orders 0,
      standard.observationsUnder orders scope =
        Builder.standard.filterMap (·.build? orders n scope)) ∧
    standard.analyzeFile orders "Orders.cs" =
      orders.walk.filterMap (observationAt? orders "Orders.cs") ∧
    (standard.analyzeFile orders "Orders.cs").map (·.template) = ["$VariableName$.Send();"] := by
  obtain ⟨hstatements, hfile⟩ := analyzeFile_counts_once orders "Orders.cs"
  obtain ⟨-, -, hscopes, -⟩ := hstatements 0 _ rfl
  obtain ⟨-, -, -, -, -, hunder⟩ := hstatements 1 _ rfl
  have hnext : ∀ scope ∈ standard.scopesFor orders 0, scope.nextStatement? orders = some 1 := by
    decide +kernel
  exact ⟨⟨_, rfl, by decide +kernel, hscopes⟩,
    ⟨_, rfl, fun scope hscope => hunder scope (hnext scope hscope)⟩, hfile, by decide +kernel⟩

end Pipeline

end Foresight
