import SignalRules.Proofs.OwnScripts

/-! # Replaced constants

A deprecated constant is replaced once, and the replacement may be deprecated as well. Then what is
left of a script is not what is left of it the next time: the script of a compiled expression
compiles to the same expression exactly if nothing replaces the constants in it any further.
-/

namespace SignalRules

/-! ## Constants -/

namespace ValueDef

theorem current_of_replacement? {d : ValueDef} {text new : String}
    (replaced : d.replacement? text = some new) : d.current text = new := by
  rw [current, replaced, Option.getD_some]

/-- A normalized constant is normalized to itself just if it lasts. -/
theorem normalize_again_iff {d : ValueDef} {place place' : ConstantPlace} {value value' : Value}
    (normal : d.normalize place value = .ok value') :
    d.normalize place' value' = .ok value' ↔ ∀ text, value' = .string text → d.Lasts text := by
  rw [normalize_self_iff]
  constructor
  · exact fun all text isText => (all text isText).2
  · rintro lasts text rfl
    exact ⟨lists_of_normalize normal, lasts text rfl⟩

/-- Normalizing is idempotent just if all that replaces a text, and is allowed, lasts. -/
theorem normalize_idempotent_iff {d : ValueDef} (place : ConstantPlace) :
    (∀ value value', d.normalize place value = .ok value' →
      d.normalize place value' = .ok value') ↔
    ∀ text new, d.replacement? text = some new → d.allows new = true → d.Lasts new := by
  constructor
  · intro idempotent text new replaced allowed
    have normal : d.normalize place (.string text) = .ok (.string new) := by
      rw [normalize_string, current_of_replacement? replaced, if_pos allowed]
    exact (normalize_again_iff normal).1 (idempotent _ _ normal) new rfl
  · intro last value value' normal
    refine (normalize_again_iff normal).2 fun text isText => ?_
    subst isText
    obtain ⟨allowed, old, rfl, became⟩ := exists_of_normalize normal
    cases replaced : d.replacement? old with
    | none =>
      obtain rfl : old = text := by rw [← became, current, replaced, Option.getD_none]
      exact lasts_iff.2 became
    | some new =>
      obtain rfl : new = text := by rw [← became, current_of_replacement? replaced]
      exact last old new replaced allowed

end ValueDef

namespace Scope

open SignalRules.Expr (Lasts Lasting Quotable)

variable {scope : Scope}

/-! ## Scripts -/

theorem parse_again_iff {script : String} {tree : Expr} (parsed : scope.parse script = .ok tree)
    (quotable : Quotable tree) :
    scope.parse tree.toScript = .ok tree ↔
      tree.toScript.utf8ByteSize ≤ scope.maxScriptLength ∧ Lasting tree := by
  obtain ⟨plain, shallow⟩ := plain_of_parse parsed quotable
  rw [parse_toScript_iff plain, and_iff_right shallow, and_iff_right (parse_wellFormed parsed)]

/-- A normalized constant is left alone if it lasts, and if another text replaces it, it becomes
that text or, if that is none of the options, it is refused. So normalizing is idempotent just if
all that replaces a text, and is allowed, lasts; and a compiled expression is what its script
compiles to just if the script is short enough and all constants in the expression last, where they
stand. -/
theorem compiled_again_iff (d : ValueDef) (place place' : ConstantPlace) (scope : Scope) :
    (∀ value value', d.normalize place value = .ok value' →
      (d.normalize place' value' = .ok value' ↔ ∀ text, value' = .string text → d.Lasts text) ∧
      ∀ text new, value' = .string text → d.replacement? text = some new →
        d.normalize place' value' = if d.allows new then .ok (.string new)
          else .error (.compile (.unknownOption new place'))) ∧
    ((∀ value value', d.normalize place value = .ok value' →
        d.normalize place value' = .ok value') ↔
      ∀ text new, d.replacement? text = some new → d.allows new = true → d.Lasts new) ∧
    ∀ script tree, scope.parse script = .ok tree → Quotable tree →
      (scope.parse tree.toScript = .ok tree ↔
        tree.toScript.utf8ByteSize ≤ scope.maxScriptLength ∧ Lasting tree) := by
  refine ⟨fun value value' normal => ⟨ValueDef.normalize_again_iff normal, ?_⟩,
    ValueDef.normalize_idempotent_iff place, fun script tree => parse_again_iff⟩
  rintro text new rfl replaced
  rw [ValueDef.normalize_string, ValueDef.current_of_replacement? replaced]

/-- A host with a signal one of whose values has been renamed twice. -/
def fan : Scope where
  host := ⟨1⟩
  maxScriptLength := 1000
  maxNestingDepth := 10
  signal name := if name = "Fan.Speed" then .ok speed else .error (.lookup (.unknownSignal name))
  source _ := .ok ()
  action name := .error (.lookup (.unknownAction name))
  executor _ := .ok ()
where
  speed : SignalDef :=
    { name := "Fan.Speed", display := "Speed", result :=
      { type := .string, replacements := some [("slow", "low"), ("low", "quiet")] } }

/-- The comparison of that signal with a text. -/
def fanAt (text : String) : Expr :=
  .operator (.comparison .eq) [.signal ⟨⟨"Fan.Speed", ⟨1⟩⟩, fan.speed⟩, .constant (.string text)]

theorem quotable_fanAt {text : String} (noQuote : '\'' ∉ text.toList) : Quotable (fanAt text) := by
  intro text' inside
  obtain rfl : text' = text := by simpa [fanAt, Tree.subtrees, Tree.subtreesAll] using inside
  exact noQuote

theorem lasting_fanAt_iff {text : String} :
    Lasting (fanAt text) ↔ fan.speed.result.Lasts text := by
  rw [fanAt, Expr.lasting_operator_iff,
    Expr.lasts_comparison_iff .eq (.string text) ⟨⟨"Fan.Speed", ⟨1⟩⟩, fan.speed⟩
      (by simp [or_comm])]
  simp [Lasting, Tree.subtrees, Lasts]

theorem plain_fanAt {text : String} (noQuote : '\'' ∉ text.toList) :
    (Expr.term (fanAt text)).toSexp.Plain := by
  have signal : Sexp.Plain (.list [.symbol "sig", .symbol "Fan.Speed"]) := by
    refine .list (List.forall_mem_cons.2 ⟨.symbol ?_, List.forall_mem_singleton.2 (.symbol ?_)⟩)
    · exact .mk (by decide) (List.all_eq_true.1 (by decide))
    · exact .mk (by decide) (List.all_eq_true.1 (by decide))
  refine .list (List.forall_mem_cons.2 ⟨.symbol ?_, List.forall_mem_cons.2 ⟨signal, ?_⟩⟩)
  · exact .mk (by decide) (List.all_eq_true.1 (by decide))
  · exact List.forall_mem_singleton.2 (.string noQuote)

theorem parse_fanAt {text : String} (noQuote : '\'' ∉ text.toList)
    (short : (fanAt text).toScript.utf8ByteSize ≤ 1000) :
    fan.parse (fanAt text).toScript = .ok (fanAt (fan.speed.result.current text)) := by
  have short : ¬fan.maxScriptLength < (fanAt text).toScript.utf8ByteSize := Nat.not_lt.2 short
  have shallow : (Expr.term (fanAt text)).toSexp.depth ≤ fan.maxNestingDepth := by
    have depth : (Expr.term (fanAt text)).toSexp.depth = 2 := rfl
    rw [depth]
    decide
  rw [parse, if_neg short, (read_toScript_iff (plain_fanAt noQuote)).2 ⟨shallow, rfl⟩]
  have admitted : (Operator.comparison .eq).arity.Admits 2 := by decide
  refine compile_eq_ok_iff.2 (.value (.operator admitted
    (.cons (.signal rfl rfl) (.cons (.string text) .nil)) ?_))
  exact Expr.ofOperands_eq_ok_iff.2 (.comparison .eq rfl rfl)

/-- The new name for `slow` is not there to stay, and the script with it compiles to something else;
the newest name is, and does not. Where only the former is an option it is refused the next time. -/
theorem fan_compiled_again :
    (fan.parse "(eq (sig Fan.Speed) 'slow')" = .ok (fanAt "low") ∧
      (fanAt "low").toScript = "(eq (sig Fan.Speed) 'low')" ∧
      fan.parse (fanAt "low").toScript ≠ .ok (fanAt "low")) ∧
    (fan.parse "(eq (sig Fan.Speed) 'low')" = .ok (fanAt "quiet") ∧
      fan.parse (fanAt "quiet").toScript = .ok (fanAt "quiet")) ∧
    let narrow := { fan.speed.result with options := some [⟨"low", "Low"⟩] }
    let place := .signal "Speed"
    narrow.normalize place (.string "slow") = .ok (.string "low") ∧
      narrow.normalize place (.string "low") =
        .error (.compile (.unknownOption "quiet" place)) := by
  have slow : fan.parse (fanAt "slow").toScript = .ok (fanAt "low") :=
    parse_fanAt (by decide) (by decide +kernel)
  have low : fan.parse (fanAt "low").toScript = .ok (fanAt "quiet") :=
    parse_fanAt (by decide) (by decide +kernel)
  have slowScript : (fanAt "slow").toScript = "(eq (sig Fan.Speed) 'slow')" := by decide +kernel
  have lowScript : (fanAt "low").toScript = "(eq (sig Fan.Speed) 'low')" := by decide +kernel
  obtain ⟨_, _, again⟩ :=
    compiled_again_iff fan.speed.result (.signal "Speed") (.signal "Speed") fan
  refine ⟨⟨slowScript ▸ slow, lowScript, fun same => ?_⟩, ⟨lowScript ▸ low, ?_⟩, ?_⟩
  · obtain ⟨_, lasting⟩ := (again _ _ slow (quotable_fanAt (by decide))).1 same
    exact absurd (lasting_fanAt_iff.1 lasting "quiet" rfl) (by decide)
  · refine (again _ _ low (quotable_fanAt (by decide))).2 ⟨by decide +kernel, ?_⟩
    exact lasting_fanAt_iff.2 (ValueDef.lasts_iff.2 (by decide))
  · intro narrow place
    have normal : narrow.normalize place (.string "slow") = .ok (.string "low") := by decide
    obtain ⟨constants, _, _⟩ := compiled_again_iff narrow place place fan
    exact ⟨normal, (constants _ _ normal).2 "low" "quiet" rfl rfl⟩

/-- Normalizing is not idempotent where a replacement is itself replaced. -/
theorem not_normalize_idempotent :
    ¬∀ (d : ValueDef) (place : ConstantPlace) (value value' : Value),
      d.normalize place value = .ok value' → d.normalize place value' = .ok value' := by
  intro idempotent
  have again := idempotent fan.speed.result (.signal "Speed") (.string "slow") (.string "low") rfl
  exact absurd again (by decide)

end Scope

end SignalRules
