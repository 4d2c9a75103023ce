import SignalRules.Proofs.Running

/-! # Meanings

What the items of a script can mean in a scope, one rule for each form, and that the compiler
accepts an item exactly when it means something.
-/

namespace SignalRules

namespace Expr

/-! ## Operators and arguments -/

/-- The operands make up this operator expression. -/
inductive Joins : Operator → List Expr → Expr → Prop where
  | comparison (c : Comparison) {left right left' right' : Expr} :
    normalizeBeside left right = .ok (left', right') → type? left' = type? right' →
      Joins (.comparison c) [left, right] (.operator (.comparison c) [left', right'])
  | numbers {op : Operator} {operands : List Expr} :
    (∀ c left right, op = .comparison c → operands ≠ [left, right]) →
      (∀ operand ∈ operands, type? operand = some .number) →
        Joins op operands (.operator op operands)

theorem ofOperands_eq_ok_iff {op : Operator} {operands : List Expr} {expr : Expr} :
    ofOperands op operands = .ok expr ↔ Joins op operands expr := by
  constructor
  · intro made
    unfold ofOperands at made
    split at made
    · rename_i c left right
      obtain ⟨⟨left', right'⟩, normal, made⟩ := Except.bind_eq_ok made
      simp only at made
      split at made
      · rename_i sameType
        cases made
        exact .comparison c normal sameType
      · cases made
    · rename_i notPair
      split at made
      · cases made
      · rename_i allNumbers
        cases made
        refine .numbers (fun c left right isComparison isPair => ?_) fun operand member => ?_
        · exact notPair c left right isComparison isPair
        · simpa using List.find?_eq_none.1 allNumbers operand member
  · rintro (⟨c, normal, sameType⟩ | ⟨notPair, allNumbers⟩)
    · simp [ofOperands, normal, sameType, bind, Except.bind]
      rfl
    · unfold ofOperands
      split
      · rename_i c left right
        exact absurd rfl (notPair c left right rfl)
      · have found : operands.find? (fun operand => type? operand ≠ some .number) = none := by
          simpa using allNumbers
        rw [found]

/-- An argument as it is after its constant, if it is one, has been normalized. -/
def normalizeArgument (d : ValueDef) (place : ConstantPlace) : Expr → Except ScriptError Expr
  | .constant value => (d.normalize place value).map Tree.constant
  | expr => .ok expr

/-- The expression can be given as an argument with this definition and then is `arg`. -/
structure Conforms (d : ValueDef) (place : ConstantPlace) (expr arg : Expr) : Prop where
  normal : normalizeArgument d place expr = .ok arg
  type : ∀ actual, type? arg = some actual → actual = d.type
  valid : ∀ value, arg = .constant value → d.validate value = .ok ()
  checked : ∀ check, d.argumentCheck = some check → check (term arg) = .ok ()

/-- What normalizing makes of an expression: other text in a constant, or nothing else. -/
inductive Becomes : Expr → Expr → Prop where
  | same (expr : Expr) : Becomes expr expr
  | constant {d : ValueDef} {place : ConstantPlace} {value value' : Value} :
    d.normalize place value = .ok value' → Becomes (.constant value) (.constant value')

/-- What normalizing makes of the two sides of a comparison. -/
inductive Beside : Expr → Expr → Expr → Expr → Prop where
  | constant {binding : SignalBinding} {value value' : Value} :
    binding.definition.result.normalize (.signal binding.definition.display) value = .ok value' →
      Beside (.constant value) (.signal binding) (.constant value') (.signal binding)
  | signal {binding : SignalBinding} {value value' : Value} :
    binding.definition.result.normalize (.signal binding.definition.display) value = .ok value' →
      Beside (.signal binding) (.constant value) (.signal binding) (.constant value')
  | same {left right : Expr} :
    (∀ value binding, left = .constant value → right ≠ .signal binding) →
      (∀ value binding, left = .signal binding → right ≠ .constant value) →
        Beside left right left right

theorem normalizeBeside_eq_ok_iff {left right left' right' : Expr} :
    normalizeBeside left right = .ok (left', right') ↔ Beside left right left' right' := by
  constructor
  · intro normal
    unfold normalizeBeside at normal
    split at normal
    · obtain ⟨_, found, same⟩ := Except.map_eq_ok normal
      cases same
      exact .constant found
    · obtain ⟨_, found, same⟩ := Except.map_eq_ok normal
      cases same
      exact .signal found
    · rename_i notConstant notSignal
      cases normal
      exact .same (fun value binding => notConstant value binding)
        fun value binding => notSignal binding value
  · rintro (found | found | ⟨notConstant, notSignal⟩)
    · rw [normalizeBeside, found]
      rfl
    · rw [normalizeBeside, found]
      rfl
    · unfold normalizeBeside
      split
      · exact absurd rfl (notConstant _ _ rfl)
      · exact absurd rfl (notSignal _ _ rfl)
      · rfl

/-- Of two expressions that are not a constant and a signal, not both are one of these. -/
theorem signal_not_mem_of_constant_mem {left right : Expr}
    (notConstant : ∀ value binding, left = .constant value → right ≠ .signal binding)
    (notSignal : ∀ value binding, left = .signal binding → right ≠ .constant value)
    {value : Value} {binding : SignalBinding} (isConstant : .constant value ∈ [left, right]) :
    .signal binding ∉ [left, right] := by
  intro isSignal
  simp only [List.mem_cons, List.not_mem_nil, or_false] at isConstant isSignal
  rcases isConstant with rfl | rfl <;> rcases isSignal with isLeft | isRight
  · cases isLeft
  · exact notConstant _ _ rfl isRight.symm
  · exact notSignal _ _ isLeft.symm rfl
  · cases isRight

theorem becomes_of_normalizeBeside {left right left' right' : Expr}
    (normal : normalizeBeside left right = .ok (left', right')) :
    Becomes left left' ∧ Becomes right right' := by
  cases normalizeBeside_eq_ok_iff.1 normal with
  | constant found => exact ⟨.constant found, .same _⟩
  | signal found => exact ⟨.same _, .constant found⟩
  | same _ _ => exact ⟨.same _, .same _⟩

theorem becomes_of_normalizeArgument {d : ValueDef} {place : ConstantPlace} {expr arg : Expr}
    (normal : normalizeArgument d place expr = .ok arg) : Becomes expr arg := by
  cases expr with
  | constant value =>
    obtain ⟨_, found, rfl⟩ := Except.map_eq_ok normal
    exact .constant found
  | signal _ | operator _ _ | action _ _ _ =>
    cases normal
    exact .same _

/-- The check on the term of an argument comes last. -/
theorem argumentCheck_eq_ok_iff {d : ValueDef} {arg arg' : Expr} :
    (match d.argumentCheck with
      | some check => do
        check (term arg)
        pure arg
      | none => pure arg : Except ScriptError Expr) = .ok arg' ↔
    arg = arg' ∧ ∀ check, d.argumentCheck = some check → check (term arg) = .ok () := by
  cases d.argumentCheck with
  | none => simp [pure, Except.pure]
  | some check =>
    cases checked : check (term arg) <;> simp [checked, pure, Except.pure, bind, Except.bind]

theorem conform_eq_ok_iff {d : ValueDef} {place : ConstantPlace} {expr arg : Expr} :
    conform d place expr = .ok arg ↔ Conforms d place expr arg := by
  constructor
  · intro fits
    unfold conform at fits
    cases expr with
    | constant value =>
      obtain ⟨_, normal, fits⟩ := Except.bind_eq_ok fits
      obtain ⟨value', _, rfl⟩ := Except.map_eq_ok normal
      simp only [type?] at fits
      split at fits
      · rename_i sameType
        obtain ⟨_, valid, fits⟩ := Except.bind_eq_ok fits
        obtain ⟨rfl, checked⟩ := argumentCheck_eq_ok_iff.1 fits
        exact ⟨normal, fun _ isType => Option.some.inj isType ▸ sameType,
          fun _ isValue => by cases isValue; exact valid, checked⟩
      · cases fits
    | signal _ | operator _ _ =>
      obtain ⟨_, ⟨⟩, fits⟩ := Except.bind_eq_ok fits
      simp only [type?] at fits
      split at fits
      · rename_i sameType
        obtain ⟨rfl, checked⟩ := argumentCheck_eq_ok_iff.1 fits
        exact ⟨rfl, fun _ isType => Option.some.inj isType ▸ sameType,
          (fun _ isValue => by cases isValue), checked⟩
      · cases fits
    | action _ _ _ =>
      obtain ⟨rfl, checked⟩ := argumentCheck_eq_ok_iff.1 fits
      exact ⟨rfl, (fun _ isType => by cases isType), (fun _ isValue => by cases isValue), checked⟩
  · rintro ⟨normal, typed, valid, checked⟩
    have last := argumentCheck_eq_ok_iff.2 ⟨rfl, checked⟩
    unfold conform
    cases expr with
    | constant value =>
      obtain ⟨value', found, rfl⟩ := Except.map_eq_ok normal
      have sameType : value'.type = d.type := typed _ rfl
      simp only [found, Except.map, type?, bind, Except.bind, if_pos sameType, valid _ rfl]
      exact last
    | signal _ | operator _ _ =>
      cases normal
      have sameType := typed _ rfl
      simp only [type?, bind, Except.bind, if_pos sameType]
      exact last
    | action _ _ _ =>
      cases normal
      exact last

end Expr

namespace Scope

variable {scope : Scope}

mutual

/-- The item means this expression, which has a value. -/
inductive Means (scope : Scope) : Sexp → Expr → Prop where
  | number {text : String} {n : Fixed} : Fixed.ofLiteral text = .ok n →
    Means scope (.number text) (.constant (.number n))
  | string (text : String) : Means scope (.string text) (.constant (.string text))
  | signal {name : String} {definition : SignalDef} :
    scope.signal name = .ok definition → scope.source name = .ok () →
      Means scope (.list [.symbol "sig", .symbol name]) (.signal ⟨⟨name, scope.host⟩, definition⟩)
  | operator {op : Operator} {items : List Sexp} {operands : List Expr} {expr : Expr} :
    op.arity.Admits items.length → MeansAll scope items operands →
      Expr.ofOperands op operands = .ok expr →
        Means scope (.list (.symbol op.keyword :: items)) expr

/-- The items mean these expressions, one by one. -/
inductive MeansAll (scope : Scope) : List Sexp → List Expr → Prop where
  | nil : MeansAll scope [] []
  | cons {item : Sexp} {items : List Sexp} {expr : Expr} {exprs : List Expr} :
    Means scope item expr → MeansAll scope items exprs →
      MeansAll scope (item :: items) (expr :: exprs)

end

theorem MeansAll.length_eq {items : List Sexp} {exprs : List Expr}
    (mean : MeansAll scope items exprs) : exprs.length = items.length := by
  induction items generalizing exprs with
  | nil =>
    cases mean
    rfl
  | cons item items ih =>
    cases mean with
    | cons _ rest => simp [ih rest]

theorem keyword_of_ofKeyword? {keyword : String} {op : Operator}
    (found : Operator.ofKeyword? keyword = some op) : op.keyword = keyword := by
  have matched := List.find?_some found
  simpa using matched

theorem means_of_bindSignal {name : String} {expr : Expr}
    (bound : scope.bindSignal name = .ok expr) :
    Means scope (.list [.symbol "sig", .symbol name]) expr := by
  obtain ⟨definition, found, bound⟩ := Except.bind_eq_ok bound
  obtain ⟨⟨⟩, readable, bound⟩ := Except.bind_eq_ok bound
  cases bound
  exact .signal found readable

mutual

theorem means_of_compileValue : ∀ {item : Sexp} {expr : Expr},
    scope.compileValue item = .ok expr → Means scope item expr
  | .number text, expr, compiled => by
    rw [compileValue] at compiled
    split at compiled
    · rename_i n canonical
      cases compiled
      exact .number canonical
    · cases compiled
  | .string text, expr, compiled => by
    rw [compileValue] at compiled
    cases compiled
    exact .string text
  | .symbol _, _, compiled => by
    rw [compileValue] at compiled
    cases compiled
  | .list [], _, compiled => by
    rw [compileValue] at compiled
    cases compiled
  | .list (.symbol keyword :: rest), expr, compiled => by
    unfold compileValue at compiled
    split at compiled
    · rename_i isSig
      subst isSig
      split at compiled
      · exact means_of_bindSignal compiled
      · cases compiled
    · split at compiled
      · cases compiled
      · split at compiled
        · cases compiled
        · rename_i op found
          cases keyword_of_ofKeyword? found
          split at compiled
          · rename_i admitted
            split at compiled
            · rename_i operands meant
              exact .operator admitted (meansAll_of_compileAll meant) compiled
            · cases compiled
          · cases compiled
  | .list (.number _ :: _), _, compiled
  | .list (.string _ :: _), _, compiled
  | .list (.list _ :: _), _, compiled => by
    unfold compileValue at compiled
    cases compiled

theorem meansAll_of_compileAll : ∀ {items : List Sexp} {exprs : List Expr},
    scope.compileAll items = .ok exprs → MeansAll scope items exprs
  | [], exprs, compiled => by
    rw [compileAll] at compiled
    cases compiled
    exact .nil
  | item :: items, exprs, compiled => by
    rw [compileAll] at compiled
    split at compiled
    · cases compiled
    · rename_i first meant
      obtain ⟨rest, meantRest, rfl⟩ := Except.map_eq_ok compiled
      exact .cons (means_of_compileValue meant) (meansAll_of_compileAll meantRest)

end

theorem keyword_ne_sig (op : Operator) : op.keyword ≠ "sig" := by
  rcases op with c | c | _ | c <;> first | decide | (cases c <;> decide)

theorem keyword_ne_act (op : Operator) : ¬(op.keyword = "act" ∨ op.keyword = "act-once") := by
  rcases op with c | c | _ | c <;> first | decide | (cases c <;> decide)

mutual

theorem Means.compileValue_eq {item : Sexp} {expr : Expr} :
    Means scope item expr → scope.compileValue item = .ok expr
  | .number canonical => by
    rw [compileValue, canonical]
  | .string _ => by
    rw [compileValue]
  | .signal found readable => by
    unfold compileValue
    simp [bindSignal, found, readable, bind, Except.bind]
    rfl
  | @Means.operator _ op _ _ _ admitted meant made => by
    unfold compileValue
    rw [if_neg (keyword_ne_sig op), if_neg (keyword_ne_act op)]
    simp only [Operator.ofKeyword?_keyword, if_pos admitted, meant.compileAll_eq, made]

theorem MeansAll.compileAll_eq {items : List Sexp} {exprs : List Expr} :
    MeansAll scope items exprs → scope.compileAll items = .ok exprs
  | .nil => by
    rw [compileAll]
  | .cons meant rest => by
    rw [compileAll, meant.compileValue_eq, rest.compileAll_eq]
    rfl

end

/-- The compiler accepts the items that mean something. -/
theorem compileValue_eq_ok_iff {item : Sexp} {expr : Expr} :
    scope.compileValue item = .ok expr ↔ Means scope item expr :=
  ⟨means_of_compileValue, Means.compileValue_eq⟩

/-! ## Calls -/

/-- The items mean these arguments of the action; the first of them has this number. -/
inductive Arguments (scope : Scope) (action : String) :
    Nat → List ValueDef → List Sexp → List Expr → Prop where
  | nil (number : Nat) : Arguments scope action number [] [] []
  | cons {number : Nat} {d : ValueDef} {ds : List ValueDef} {item : Sexp} {items : List Sexp}
      {expr arg : Expr} {args : List Expr} :
    Means scope item expr → Expr.conform d (.argument number action) expr = .ok arg →
      Arguments scope action (number + 1) ds items args →
        Arguments scope action number (d :: ds) (item :: items) (arg :: args)

theorem compileArguments_eq_ok_iff {action : String} {number : Nat} {ds : List ValueDef}
    {items : List Sexp} {args : List Expr} (sameLength : items.length = ds.length) :
    scope.compileArguments action number ds items = .ok args ↔
      Arguments scope action number ds items args := by
  constructor
  · intro compiled
    induction ds generalizing number items args with
    | nil =>
      cases List.length_eq_zero_iff.1 sameLength
      rw [compileArguments] at compiled
      · cases compiled
        exact .nil number
      · simp
    | cons d ds ih =>
      obtain ⟨item, items, rfl⟩ := List.exists_cons_of_length_eq_add_one sameLength
      rw [compileArguments] at compiled
      obtain ⟨expr, meant, compiled⟩ := Except.bind_eq_ok compiled
      obtain ⟨arg, fits, compiled⟩ := Except.bind_eq_ok compiled
      obtain ⟨rest, compiledRest, compiled⟩ := Except.bind_eq_ok compiled
      cases compiled
      exact .cons (compileValue_eq_ok_iff.1 meant) fits (ih (by simpa using sameLength) compiledRest)
  · intro arguments
    induction arguments with
    | nil number =>
      rw [compileArguments]
      simp
    | cons meant fits rest ih =>
      rw [compileArguments, meant.compileValue_eq, ih (by simpa using sameLength)]
      simp [fits, bind, Except.bind]
      rfl

/-- The items behind the keyword mean a call. -/
inductive MeansCall (scope : Scope) (once : Bool) : List Sexp → Call → Prop where
  | call {name : String} {items : List Sexp} {definition : ActionDef} {args : List Expr} :
    scope.action name = .ok definition → items.length = definition.arguments.length →
      Arguments scope name 1 definition.arguments items args → scope.executor name = .ok () →
        MeansCall scope once (.symbol name :: items) ⟨once, ⟨⟨name, scope.host⟩, definition⟩, args⟩

theorem compileCall_eq_ok_iff {once : Bool} {items : List Sexp} {call : Call} :
    scope.compileCall once items = .ok call ↔ MeansCall scope once items call := by
  constructor
  · intro compiled
    unfold compileCall at compiled
    split at compiled
    · rename_i name items
      obtain ⟨definition, found, compiled⟩ := Except.bind_eq_ok compiled
      split at compiled
      · cases compiled
      · rename_i sameLength
        simp only [ne_eq, Decidable.not_not] at sameLength
        obtain ⟨args, arguments, compiled⟩ := Except.bind_eq_ok compiled
        obtain ⟨⟨⟩, performable, compiled⟩ := Except.bind_eq_ok compiled
        cases compiled
        exact .call found sameLength ((compileArguments_eq_ok_iff sameLength).1 arguments)
          performable
    · cases compiled
  · rintro ⟨found, sameLength, arguments, performable⟩
    have compiled := (compileArguments_eq_ok_iff sameLength).2 arguments
    simp [compileCall, found, sameLength, compiled, performable, bind, Except.bind]
    rfl

end Scope

theorem Call.toExpr_injective {a b : Call} (same : a.toExpr = b.toExpr) : a = b := by
  cases a
  cases b
  cases same
  rfl

/-- The word that starts a call. -/
def Call.keyword (once : Bool) : String :=
  if once then "act-once" else "act"

namespace Scope

variable {scope : Scope}

/-- The item means this expression, a value or a call. -/
inductive MeansAny (scope : Scope) : Sexp → Expr → Prop where
  | value {item : Sexp} {expr : Expr} : Means scope item expr → MeansAny scope item expr
  | call {once : Bool} {items : List Sexp} {call : Call} : MeansCall scope once items call →
    MeansAny scope (.list (.symbol (Call.keyword once) :: items)) call.toExpr

theorem Means.not_call (once : Bool) {items : List Sexp} {expr : Expr} :
    ¬Means scope (.list (.symbol (Call.keyword once) :: items)) expr := by
  intro meant
  have compiled := meant.compileValue_eq
  unfold compileValue at compiled
  cases once <;> simp [Call.keyword] at compiled

theorem compile_eq_ok_iff {item : Sexp} {expr : Expr} :
    scope.compile item = .ok expr ↔ MeansAny scope item expr := by
  constructor
  · intro compiled
    unfold compile at compiled
    split at compiled
    · split at compiled
      · rename_i isAct
        subst isAct
        obtain ⟨call, meant, rfl⟩ := Except.map_eq_ok compiled
        exact MeansAny.call (compileCall_eq_ok_iff.1 meant)
      · split at compiled
        · rename_i isActOnce
          subst isActOnce
          obtain ⟨call, meant, rfl⟩ := Except.map_eq_ok compiled
          exact MeansAny.call (compileCall_eq_ok_iff.1 meant)
        · exact .value (compileValue_eq_ok_iff.1 compiled)
    · exact .value (compileValue_eq_ok_iff.1 compiled)
  · rintro (meant | @⟨once, _, _, meant⟩)
    · have compiled := meant.compileValue_eq
      unfold compile
      split
      · rename_i keyword items
        split
        · rename_i isAct
          subst isAct
          exact (Means.not_call false meant).elim
        · split
          · rename_i isActOnce
            subst isActOnce
            exact (Means.not_call true meant).elim
          · exact compiled
      · exact compiled
    · have compiled := compileCall_eq_ok_iff.2 meant
      cases once <;> simp [compile, Call.keyword, compiled, Except.map]

theorem means_of_parse {script : String} {tree : Expr} (parsed : scope.parse script = .ok tree) :
    ∃ item, Sexp.read script scope.maxNestingDepth = .ok item ∧ MeansAny scope item tree := by
  unfold parse at parsed
  split at parsed
  · cases parsed
  · split at parsed
    · rename_i item written
      exact ⟨item, written, compile_eq_ok_iff.1 parsed⟩
    · cases parsed

theorem Means.ne_action {item : Sexp} {once : Bool} {binding : ActionBinding} {args : List Expr} :
    ¬Means scope item (.action once binding args) := by
  intro meant
  cases meant with
  | operator _ _ made => cases Expr.ofOperands_eq_ok_iff.1 made

theorem meansCall_of_parseCall {script : String} {call : Call}
    (parsed : scope.parseCall script = .ok call) :
    ∃ once items, MeansCall scope once items call := by
  obtain ⟨expr, parsed, matched⟩ := Except.bind_eq_ok parsed
  obtain ⟨item, _, meant⟩ := means_of_parse parsed
  cases meant with
  | value meant =>
    split at matched
    · exact meant.ne_action.elim
    · cases matched
  | call meant =>
    cases matched
    exact ⟨_, _, meant⟩

end Scope

end SignalRules
