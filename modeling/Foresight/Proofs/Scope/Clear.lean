import Foresight.Proofs.CSharp.Clear
import Foresight.Proofs.Scope.Captured

/-!
# Captured texts without a mark

What a scope captures are names and texts of the statement that it is about. So in a file without a
mark there is none in what is captured (`capturesClear_of_mem_scopesFor`).
-/

namespace Foresight

open Template

/-- There is no mark in what is captured. -/
abbrev CapturesClear (parameters : Fields) : Prop := parameters.All fun _ value => Clear value

theorem allClear_resolved {info : TypeInfo} {type : TypeRef} (h : AllClear info.texts)
    (htype : info.resolved? = some type) : AllClear type.texts := by
  rw [TypeInfo.texts, htype] at h
  exact fun t ht => h t (List.mem_append_left _ ht)

theorem capturesClear_typed {type : TypeRef} (htype : AllClear type.texts)
    {subject : Option String} (hsubject : ∀ name ∈ subject, Clear name) :
    CapturesClear (Classifier.typedParameters subject type) := by
  have hpresentable : Clear type.presentable := htype _ List.mem_cons_self
  have hlong : Clear type.longName := htype _ (List.mem_cons_of_mem _ List.mem_cons_self)
  unfold Classifier.typedParameters
  cases subject with
  | none => exact (Table.all_empty.insert hpresentable).insert hlong
  | some name =>
    exact ((Table.all_empty.insert (hsubject name rfl)).insert hpresentable).insert hlong

theorem clear_memberNames {m : Member} (h : AllClear (Symbol.member m).texts) :
    Clear m.typeQualifiedName ∧ Clear m.fullName ∧ ∀ q ∈ m.containingType, Clear q.name := by
  obtain ⟨name, kind, owner, isAssertion⟩ := m
  have hname : Clear name := h _ List.mem_cons_self
  cases owner with
  | none => exact ⟨hname, hname, fun _ hnone => nomatch hnone⟩
  | some q =>
    have hq : AllClear q.texts := fun t ht =>
      h t (List.mem_cons_of_mem _ (List.mem_append_left _ ht))
    have hdotted : ∀ {owner}, Clear owner → Clear (owner ++ "." ++ name) := fun howner =>
      clear_append.mpr ⟨clear_append.mpr ⟨howner, by decide⟩, hname⟩
    have howner : Clear q.name := hq _ (List.mem_cons_of_mem _ List.mem_cons_self)
    exact ⟨hdotted howner, hdotted (CSharp.clear_fullName hq), of_mem_some howner⟩

theorem capturesClear_call {receiver : Expression} {m : Member} (hreceiver : Clear receiver.text)
    (h : AllClear (Symbol.member m).texts) :
    CapturesClear (Classifier.callParameters receiver m) := by
  obtain ⟨hqualified, hfull, howner⟩ := clear_memberNames h
  unfold Classifier.callParameters
  extract_lets named contained full
  have hnamed : CapturesClear named :=
    ((Table.all_empty.insert hreceiver).insert (h _ List.mem_cons_self)).insert hqualified
  have hcontained : CapturesClear contained := by
    unfold contained
    split
    · rename_i q hq
      exact hnamed.insert (howner q hq)
    · exact hnamed
  split
  · exact (hcontained.insert hfull).insert (by decide)
  · exact hcontained.insert hfull

theorem clear_calledMethod? {e receiver : Expression} {m : Member} (h : ClearWithin e)
    (hcall : Classifier.calledMethod? e = some (receiver, m)) :
    Clear receiver.text ∧ AllClear (Symbol.member m).texts := by
  unfold Classifier.calledMethod? at hcall
  split at hcall
  · rename_i invoked arguments hinvocation
    split at hcall
    · rename_i receiver' name m' hreference
      split at hcall
      · obtain ⟨rfl, rfl⟩ := Prod.mk.inj (Option.some.inj hcall)
        have hinvoked : ClearWithin invoked := h.operand (hinvocation ▸ List.mem_cons_self)
        have hreceiver : ClearWithin receiver' :=
          hinvoked.operand (hreference ▸ List.mem_singleton_self _)
        have htexts := hinvoked.shape
        rw [hreference] at htexts
        exact ⟨hreceiver.self _ List.mem_cons_self, fun t ht =>
          htexts t (List.mem_cons_of_mem _ (List.mem_append_left _ ht))⟩
      · cases hcall
    · cases hcall
  · cases hcall

theorem mem_operands_of_nullComparison? {condition operand : Expression} {isEquality : Bool}
    (h : Classifier.nullComparison? condition = some (operand, isEquality)) :
    operand ∈ condition.shape.operands := by
  unfold Classifier.nullComparison? at h
  split at h
  · rename_i left operator right hshape
    rw [hshape]
    split at h
    · split at h
      · cases h
        exact List.mem_cons_self
      · split at h
        · cases h
          exact List.mem_cons_of_mem _ List.mem_cons_self
        · cases h
    · cases h
  · cases h

theorem capturesClear_assignment {e : Expression} (h : ClearWithin e) {anchor : StatementId}
    {scope : Scope} (hscope : Classifier.assignmentScope? anchor e = some scope) :
    CapturesClear scope.parameters := by
  unfold Classifier.assignmentScope? at hscope
  split at hscope
  · rename_i target operator value hshape
    have htarget : ClearWithin target := h.operand (hshape ▸ List.mem_cons_self)
    have hvalue : ClearWithin value :=
      h.operand (hshape ▸ List.mem_cons_of_mem _ List.mem_cons_self)
    split at hscope
    · obtain ⟨valueType, hvalueType, hscope⟩ := Option.bind_eq_some_iff.mp hscope
      obtain rfl := Option.some.inj hscope
      have htype : AllClear (target.type.resolved?.getD valueType).texts := by
        cases htargetType : target.type.resolved? with
        | none => exact allClear_resolved hvalue.type hvalueType
        | some type => exact allClear_resolved htarget.type htargetType
      have htyped := capturesClear_typed htype
        (of_mem_some (htarget.self target.text List.mem_cons_self))
      exact htyped.insert (hvalue.self value.text List.mem_cons_self)
    · cases hscope
  · cases hscope

/-- A variable with a type that is known is captured with it. -/
theorem capturesClear_variable {v : Variable} (h : AllClear v.texts) {type : TypeRef}
    (htype : v.type.resolved? = some type) :
    CapturesClear (Classifier.typedParameters (some v.name) type) := by
  obtain ⟨hname, hmore⟩ := List.forall_mem_cons.mp h
  exact capturesClear_typed (allClear_resolved (List.forall_mem_cons.mp hmore).2 htype)
    (of_mem_some hname)

theorem capturesClear_handle? {c : Classifier} {anchor : StatementId} {kind : StatementKind}
    {text : String} (h : kind.Clear text) {scope : Scope}
    (hscope : c.handle? anchor kind = some scope) : CapturesClear scope.parameters := by
  unfold Classifier.handle? at hscope
  split at hscope
  · rename_i e
    obtain ⟨⟨receiver, m⟩, hcall, hscope⟩ := Option.bind_eq_some_iff.mp hscope
    obtain ⟨hreceiver, hm⟩ := clear_calledMethod? (h.expressions e List.mem_cons_self) hcall
    dsimp only at hscope
    split at hscope
    · cases hscope
    · obtain rfl := Option.some.inj hscope
      exact capturesClear_call hreceiver hm
  · unfold Classifier.declarationScope? at hscope
    split at hscope
    · rename_i v
      obtain ⟨type, htype, hscope⟩ := Option.bind_eq_some_iff.mp hscope
      obtain ⟨value, hvalue, hscope⟩ := Option.bind_eq_some_iff.mp hscope
      obtain rfl := Option.some.inj hscope
      have hvalues := h.expressions value (Builder.mem_expressions_declaration hvalue)
      have htexts : AllClear v.texts := fun t ht => h.texts t (List.mem_append_left _ ht)
      exact (capturesClear_variable htexts htype).insert (hvalues.self _ List.mem_cons_self)
    · cases hscope
  · exact capturesClear_assignment (h.expressions _ List.mem_cons_self) hscope
  · rename_i iterator collection body
    obtain ⟨type, htype, hscope⟩ := Option.bind_eq_some_iff.mp hscope
    obtain rfl := Option.some.inj hscope
    have hcollection : ClearWithin collection := h.expressions collection List.mem_cons_self
    exact capturesClear_typed (allClear_resolved hcollection.type htype)
      (of_mem_some (h.texts _ List.mem_cons_self))
  · unfold Classifier.usingScope? at hscope
    split at hscope
    · rename_i v
      obtain ⟨type, htype, hscope⟩ := Option.bind_eq_some_iff.mp hscope
      obtain rfl := Option.some.inj hscope
      have htexts : AllClear v.texts := fun t ht => h.texts t (List.mem_append_left _ ht)
      exact capturesClear_variable htexts htype
    · cases hscope
  · rename_i condition _ _
    have hcondition : ClearWithin condition := h.expressions condition List.mem_cons_self
    obtain ⟨⟨operand, isEquality⟩, hoperand, hscope⟩ := Option.bind_eq_some_iff.mp hscope
    obtain ⟨type, htype, hscope⟩ := Option.bind_eq_some_iff.mp hscope
    obtain rfl := Option.some.inj hscope
    have hoperand : ClearWithin operand :=
      hcondition.operand (mem_operands_of_nullComparison? hoperand)
    exact capturesClear_typed (allClear_resolved hoperand.type htype) fun _ hnone => nomatch hnone
  · obtain ⟨m, -, hscope⟩ := Option.bind_eq_some_iff.mp hscope
    obtain rfl := Option.some.inj hscope
    exact Table.all_empty
  · obtain ⟨m, -, hscope⟩ := Option.bind_eq_some_iff.mp hscope
    obtain rfl := Option.some.inj hscope
    exact Table.all_empty
  · cases hscope

/-- A scope in a file without a mark captures none. -/
theorem capturesClear_of_mem_scopesFor {p : Pipeline} {file : SourceFile} (h : file.IsClear)
    {id : StatementId} {scope : Scope} (hscope : scope ∈ p.scopesFor file id) :
    CapturesClear scope.parameters := by
  unfold Pipeline.scopesFor at hscope
  split at hscope
  · cases hscope
  · rename_i s hs
    obtain ⟨c, -, hc⟩ := List.mem_filterMap.mp hscope
    exact capturesClear_handle? (h id s hs) hc

end Foresight
