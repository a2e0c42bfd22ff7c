import Foresight.Mining

/-!
# What scopes are named after

A scope is named after a topic: a type, a method or a member, and the family of positions that it is
about. `Names` says by the shapes of statements alone which topic a classifier finds there; no name
of a variable and no text of an initializer or of an argument takes part in it, except that a
comparison with `null` is known by its text. A statement has one topic at most, and one classifier
that finds it (`Names.unique`); every scope has a topic, which its key spells
(`exists_names_of_handle?`).
-/

namespace Foresight

/-- What a position is about. -/
inductive Topic where
  /-- Behind a variable of a type, be it declared or assigned. -/
  | variable_ (longName : String)
  | call (fullName : String)
  | loop (longName : String)
  | resource (longName : String)
  | null (longName : String) (isEquality : Bool)
  | guard (member : String)
  | negatedGuard (member : String)
  deriving DecidableEq

namespace Topic

/-- How the sentence of a topic begins. Both guards on a member begin alike. -/
def lead : Topic → String
  | .variable_ _ => "After variable of type \""
  | .call _ => "After call to \""
  | .loop _ => "Inside foreach loop of type \""
  | .resource _ => "Inside using of type \""
  | .null _ _ => "If expression of type \""
  | .guard _ | .negatedGuard _ => "If expression \""

/-- What stands in quotes. -/
def subject : Topic → String
  | .variable_ name | .call name | .loop name | .resource name | .null name _ | .guard name => name
  | .negatedGuard name => "!" ++ name

def tail : Topic → String
  | .null _ isEquality => if isEquality then "\" is null" else "\" is not null"
  | _ => "\""

def key (t : Topic) : String := t.lead ++ t.subject ++ t.tail

end Topic

/-- A condition that compares an operand with `null`; where both sides are `null`, the left one is
the operand. -/
inductive ComparesNull (condition operand : Expression) (isEquality : Bool) : Prop
  | right (null : Expression) (hnull : null.isNullLiteral = true)
      (hshape : condition.shape = .binary operand (if isEquality then "==" else "!=") null)
  | left (null : Expression) (hnull : null.isNullLiteral = true)
      (hoperand : operand.isNullLiteral = false)
      (hshape : condition.shape = .binary null (if isEquality then "==" else "!=") operand)

theorem ComparesNull.exists_shape {condition operand : Expression} {isEquality : Bool}
    (h : ComparesNull condition operand isEquality) :
    ∃ left right, condition.shape = .binary left (if isEquality then "==" else "!=") right := by
  cases h with
  | right null _ hshape => exact ⟨operand, null, hshape⟩
  | left null _ _ hshape => exact ⟨null, operand, hshape⟩

theorem ComparesNull.unique {condition operand operand' : Expression}
    {isEquality isEquality' : Bool} (h : ComparesNull condition operand isEquality)
    (h' : ComparesNull condition operand' isEquality') :
    operand = operand' ∧ isEquality = isEquality' := by
  have hrelation : ∀ a b : Bool,
      (if a then "==" else "!=") = (if b then "==" else "!=") → a = b := by decide
  cases h with
  | right null hnull hshape =>
    cases h' with
    | right null' _ hshape' =>
      obtain ⟨rfl, hoperator, -⟩ := Expression.Shape.binary.inj (hshape.symm.trans hshape')
      exact ⟨rfl, hrelation _ _ hoperator⟩
    | left null' _ hoperand hshape' =>
      obtain ⟨-, -, rfl⟩ := Expression.Shape.binary.inj (hshape.symm.trans hshape')
      cases hnull.symm.trans hoperand
  | left null hnull hoperand hshape =>
    cases h' with
    | right null' hnull' hshape' =>
      obtain ⟨-, -, rfl⟩ := Expression.Shape.binary.inj (hshape.symm.trans hshape')
      cases hnull'.symm.trans hoperand
    | left null' _ _ hshape' =>
      obtain ⟨-, hoperator, rfl⟩ := Expression.Shape.binary.inj (hshape.symm.trans hshape')
      exact ⟨rfl, hrelation _ _ hoperator⟩

/-- The topic that a classifier finds at a statement. -/
inductive Names : Classifier → StatementKind → Topic → Prop
  | declared {v : Variable} {type : TypeRef} {value : Expression}
      (htype : v.type = .resolved type) (hvalue : v.initializer = some value) :
      Names .localVariable (.declaration [v]) (.variable_ type.longName)
  /-- The type of a variable is known. -/
  | assigned {e target value : Expression} {operator name : String}
      {qualifier : Option Expression} {symbol : Option Symbol} {type valueType : TypeRef}
      (hshape : e.shape = .assignment target operator value)
      (htarget : target.shape = .reference qualifier name symbol)
      (hvalue : value.type = .resolved valueType) (htype : target.type = .resolved type) :
      Names .assignment (.expression e) (.variable_ type.longName)
  /-- Only the type of its value is. -/
  | assignedUntyped {e target value : Expression} {operator name : String}
      {qualifier : Option Expression} {symbol : Option Symbol} {valueType : TypeRef}
      (hshape : e.shape = .assignment target operator value)
      (htarget : target.shape = .reference qualifier name symbol)
      (hvalue : value.type = .resolved valueType) (htype : ∀ type, target.type ≠ .resolved type) :
      Names .assignment (.expression e) (.variable_ valueType.longName)
  | called {e invoked receiver : Expression} {arguments : List (Argument Expression)}
      {name : String} {m : Member} (hshape : e.shape = .invocation invoked arguments)
      (hmethod : invoked.shape = .reference (some receiver) name (some (.member m)))
      (hkind : m.kind = .method) (hassertion : m.isAssertion = false) :
      Names .invocation (.expression e) (.call m.fullName)
  | iterated {iterator : Iterator} {collection : Expression} {body : Option StatementId}
      {type : TypeRef} (htype : collection.type = .resolved type) :
      Names .foreach (.foreach iterator collection body) (.loop type.longName)
  | used {v : Variable} {resource : Option Expression} {body : Option StatementId} {type : TypeRef}
      (htype : v.type = .resolved type) :
      Names .using_ (.using_ [v] resource body) (.resource type.longName)
  | compared {condition operand : Expression} {then_ else_ : Option StatementId}
      {isEquality : Bool} {type : TypeRef} (hnull : ComparesNull condition operand isEquality)
      (htype : operand.type = .resolved type) :
      Names .ifNull (.if_ condition then_ else_) (.null type.longName isEquality)
  | guarded {condition : Expression} {then_ else_ : Option StatementId} {name : String}
      {qualifier : Option Expression} {m : Member}
      (hshape : condition.shape = .reference qualifier name (some (.member m))) :
      Names .ifMember (.if_ condition then_ else_) (.guard m.typeQualifiedName)
  | negated {condition operand : Expression} {then_ else_ : Option StatementId} {name : String}
      {qualifier : Option Expression} {m : Member}
      (hshape : condition.shape = .unary "!" operand false)
      (hmember : operand.shape = .reference qualifier name (some (.member m))) :
      Names .ifNegation (.if_ condition then_ else_) (.negatedGuard m.typeQualifiedName)

/-- A statement has one topic, found by one classifier: the shapes exclude each other, and each
leaves one choice of what is named. -/
theorem Names.unique {c c' : Classifier} {kind : StatementKind} {t t' : Topic}
    (h : Names c kind t) (h' : Names c' kind t') : c = c' ∧ t = t' := by
  cases h with
  | compared hnull htype =>
    obtain ⟨_, _, hshape⟩ := hnull.exists_shape
    cases h' with
    | compared hnull' htype' =>
      obtain ⟨rfl, rfl⟩ := hnull.unique hnull'
      obtain rfl := TypeInfo.resolved.inj (htype.symm.trans htype')
      exact ⟨rfl, rfl⟩
    | guarded hshape' => cases hshape.symm.trans hshape'
    | negated hshape' _ => cases hshape.symm.trans hshape'
  | guarded hshape =>
    cases h' with
    | compared hnull' _ =>
      obtain ⟨_, _, hshape'⟩ := hnull'.exists_shape
      cases hshape.symm.trans hshape'
    | guarded hshape' =>
      cases hshape.symm.trans hshape'
      exact ⟨rfl, rfl⟩
    | negated hshape' _ => cases hshape.symm.trans hshape'
  | negated hshape hmember =>
    cases h' with
    | compared hnull' _ =>
      obtain ⟨_, _, hshape'⟩ := hnull'.exists_shape
      cases hshape.symm.trans hshape'
    | guarded hshape' => cases hshape.symm.trans hshape'
    | negated hshape' hmember' =>
      cases hshape.symm.trans hshape'
      cases hmember.symm.trans hmember'
      exact ⟨rfl, rfl⟩
  | _ => cases h' <;> simp_all

/-! ## The topics of scopes -/

theorem resolved_of_resolved? {info : TypeInfo} {type : TypeRef}
    (h : info.resolved? = some type) : info = .resolved type := by
  cases info with
  | resolved _ => exact congrArg _ (Option.some.inj h)
  | unknown => cases h
  | unresolved => cases h

namespace Classifier

variable {anchor : StatementId} {scope : Scope}

theorem names_of_declarationScope? {declared : List Variable}
    (h : declarationScope? anchor declared = some scope) :
    ∃ t, Names .localVariable (.declaration declared) t ∧ scope.key = t.key := by
  unfold declarationScope? at h
  split at h
  · obtain ⟨type, htype, h⟩ := Option.bind_eq_some_iff.mp h
    obtain ⟨value, hvalue, h⟩ := Option.bind_eq_some_iff.mp h
    cases h
    exact ⟨_, .declared (resolved_of_resolved? htype) hvalue, rfl⟩
  · cases h

theorem names_of_assignmentScope? {e : Expression}
    (h : assignmentScope? anchor e = some scope) :
    ∃ t, Names .assignment (.expression e) t ∧ scope.key = t.key := by
  unfold assignmentScope? at h
  split at h
  · rename_i target operator value hshape
    split at h
    · rename_i htarget
      obtain ⟨valueType, hvalue, h⟩ := Option.bind_eq_some_iff.mp h
      cases h
      have hvalue := resolved_of_resolved? hvalue
      cases htype : target.type with
      | resolved type => exact ⟨_, .assigned hshape htarget hvalue htype, rfl⟩
      | unknown | unresolved =>
        have huntyped : ∀ type, target.type ≠ .resolved type := by simp [htype]
        exact ⟨_, .assignedUntyped hshape htarget hvalue huntyped, rfl⟩
    · cases h
  · cases h

theorem names_of_callScope? {e : Expression} (h : callScope? anchor e = some scope) :
    ∃ t, Names .invocation (.expression e) t ∧ scope.key = t.key := by
  obtain ⟨⟨receiver, m⟩, hcalled, h⟩ := Option.bind_eq_some_iff.mp h
  dsimp only at h
  split at h
  · cases h
  · rename_i hassertion
    cases h
    unfold calledMethod? at hcalled
    split at hcalled
    · rename_i hshape
      split at hcalled
      · rename_i hinvoked
        split at hcalled
        · rename_i hkind
          cases hcalled
          exact ⟨_, .called hshape hinvoked hkind (Bool.eq_false_iff.mpr hassertion), rfl⟩
        · cases hcalled
      · cases hcalled
    · cases hcalled

theorem names_of_foreachScope? {iterator : Iterator} {collection : Expression}
    (body : Option StatementId) (h : foreachScope? anchor iterator collection = some scope) :
    ∃ t, Names .foreach (.foreach iterator collection body) t ∧ scope.key = t.key := by
  obtain ⟨type, htype, h⟩ := Option.bind_eq_some_iff.mp h
  cases h
  exact ⟨_, .iterated (resolved_of_resolved? htype), rfl⟩

theorem names_of_usingScope? {declared : List Variable} (resource : Option Expression)
    (body : Option StatementId) (h : usingScope? anchor declared = some scope) :
    ∃ t, Names .using_ (.using_ declared resource body) t ∧ scope.key = t.key := by
  unfold usingScope? at h
  split at h
  · obtain ⟨type, htype, h⟩ := Option.bind_eq_some_iff.mp h
    cases h
    exact ⟨_, .used (resolved_of_resolved? htype), rfl⟩
  · cases h

theorem comparesNull_of_nullComparison? {condition operand : Expression} {isEquality : Bool}
    (h : nullComparison? condition = some (operand, isEquality)) :
    ComparesNull condition operand isEquality := by
  unfold nullComparison? at h
  split at h
  · rename_i left operator right hshape
    split at h
    · rename_i hoperator
      have hspelled : operator = if (operator == "==") = true then "==" else "!=" := by
        rcases Bool.or_eq_true_iff.mp hoperator with h | h
        · rw [if_pos h, beq_iff_eq.mp h]
        · rw [beq_iff_eq.mp h]
          decide
      split at h
      · rename_i hright
        obtain ⟨rfl, rfl⟩ := Prod.mk.inj (Option.some.inj h)
        exact .right right hright (hspelled ▸ hshape)
      · rename_i hright
        split at h
        · rename_i hleft
          obtain ⟨rfl, rfl⟩ := Prod.mk.inj (Option.some.inj h)
          exact .left left hleft (Bool.eq_false_iff.mpr hright) (hspelled ▸ hshape)
        · cases h
    · cases h
  · cases h

theorem shape_of_referredMember? {e : Expression} {m : Member}
    (h : referredMember? e = some m) :
    ∃ qualifier name, e.shape = .reference qualifier name (some (.member m)) := by
  unfold referredMember? at h
  split at h
  · rename_i hshape
    cases h
    exact ⟨_, _, hshape⟩
  · cases h

theorem shape_of_negatedMember? {condition : Expression} {m : Member}
    (h : negatedMember? condition = some m) :
    ∃ operand, condition.shape = .unary "!" operand false ∧ referredMember? operand = some m := by
  unfold negatedMember? at h
  split at h
  · rename_i hshape
    split at h
    · rename_i hoperator
      obtain rfl := beq_iff_eq.mp hoperator
      exact ⟨_, hshape, h⟩
    · cases h
  · cases h

theorem names_of_guardScope? {c : Classifier} {condition : Expression}
    (then_ else_ : Option StatementId)
    (h : c.handle? anchor (.if_ condition then_ else_) = some scope) :
    ∃ t, Names c (.if_ condition then_ else_) t ∧ scope.key = t.key := by
  cases c with
  | ifNull =>
    obtain ⟨⟨operand, isEquality⟩, hnull, h⟩ := Option.bind_eq_some_iff.mp h
    obtain ⟨type, htype, h⟩ := Option.bind_eq_some_iff.mp h
    cases h
    refine ⟨_, .compared (comparesNull_of_nullComparison? hnull) (resolved_of_resolved? htype), ?_⟩
    have htail : Topic.tail (.null type.longName isEquality) =
        "\" " ++ (if isEquality then "is" else "is not") ++ " null" := by
      cases isEquality <;> rfl
    simp only [Scope.inside, Topic.key, Topic.lead, Topic.subject, htail, String.append_assoc]
  | ifMember =>
    obtain ⟨m, hm, h⟩ := Option.bind_eq_some_iff.mp h
    cases h
    obtain ⟨_, _, hshape⟩ := shape_of_referredMember? hm
    exact ⟨_, .guarded hshape, rfl⟩
  | ifNegation =>
    obtain ⟨m, hm, h⟩ := Option.bind_eq_some_iff.mp h
    cases h
    obtain ⟨operand, hshape, hmember⟩ := shape_of_negatedMember? hm
    obtain ⟨_, _, hmember⟩ := shape_of_referredMember? hmember
    refine ⟨_, .negated hshape hmember, ?_⟩
    have hlead : "If expression \"!" = "If expression \"" ++ "!" := by decide
    simp only [Scope.inside, Topic.key, Topic.lead, Topic.subject, Topic.tail, hlead,
      String.append_assoc]
  | _ => cases h

theorem exists_names_of_handle? {c : Classifier} {kind : StatementKind}
    (h : c.handle? anchor kind = some scope) : ∃ t, Names c kind t ∧ scope.key = t.key := by
  cases kind with
  | expression e =>
    cases c with
    | invocation => exact names_of_callScope? h
    | assignment => exact names_of_assignmentScope? h
    | _ => cases h
  | declaration declared =>
    cases c with
    | localVariable => exact names_of_declarationScope? h
    | _ => cases h
  | foreach iterator collection body =>
    cases c with
    | foreach => exact names_of_foreachScope? body h
    | _ => cases h
  | using_ declared resource body =>
    cases c with
    | using_ => exact names_of_usingScope? resource body h
    | _ => cases h
  | if_ condition then_ else_ => exact names_of_guardScope? then_ else_ h
  | _ => cases c <;> cases h

end Classifier

end Foresight
