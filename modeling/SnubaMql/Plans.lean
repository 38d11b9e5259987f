import SnubaMql.Aliases

/-! # What the plan builders keep, drop and raise

`convert_timeseries_to_query` conjoins a leaf's `metric_id` with every
condition attached to it (`convertTimeseriesToQuery_condition`).
`convert_formula_to_query` rebuilds each leaf from the first parameter of its
aggregate and each condition from its first argument, and both must be a
column: a combined filter (`OR`, `AND`, `,`) is dropped from a formula's plan,
and a leaf made by an arbitrary function raises `AssertionError`
(`extractLeafExpression_arbitraryFunction`). Neither that error, nor the
`IndexError` of a formula without metrics (`convertFormulaToQuery_no_leaves`),
nor the `AttributeError` of a bare number, is turned into an
`InvalidQueryException`: the builders run outside the catch-all of
`parse_mql_query_body`.
-/

namespace SnubaMql

/-! ## Single-source plans keep every condition -/

/-- The plan of a leaf holds in exactly the rows of its metric where every
condition attached to the leaf holds. -/
theorem convertTimeseriesToQuery_condition {parsed : InitialParseResult} {dataset : Dataset}
    {q : Query} (h : convertTimeseriesToQuery parsed dataset = .ok q) :
    ∃ mri c, parsed.mri = some mri ∧ q.condition = some c ∧ ∀ row,
      c.holds row = (row none "metric_id" == .str mri && Expression.holdsAll row (parsed.conditions.getD [])) := by
  unfold convertTimeseriesToQuery at h
  split at h
  · cases h
  split at h
  · cases h
  · next mri hmri =>
      simp only [bind_eq_ok, pure_eq_ok, Except.ok.injEq] at h
      obtain ⟨c, hc, k, -, rfl⟩ := h
      have hparsed : parsed.mri = some mri := by
        revert hmri; cases parsed.mri <;> simp [truthy, Option.filter]
      refine ⟨mri, c, hparsed, rfl, fun row => ?_⟩
      rw [combineAndConditions_holds row _ c hc]
      simp [binaryCondition]

/-! ## Formula plans -/

/-- The two function forms that wrap an aggregate call in another function. -/
def FunctionForm.isArbitrary : FunctionForm → Bool
  | .aggregate _ => false
  | .arbitraryFunction .. | .curriedArbitraryFunction .. => true

theorem visitAggregateCall_expression {call : AggregateCall} {v v' : MQLVisitor}
    {r : InitialParseResult} (h : visitAggregateCall call v = .ok (r, v')) :
    r.expression = some ⟨some aggregateAlias, call.selectedAggregate⟩ := by
  simp only [visitAggregateCall, bind_eq_ok, pure_eq_ok, Except.ok.injEq, Prod.mk.injEq] at h
  obtain ⟨_, -, rfl, rfl⟩ := h
  rfl

/-- A leaf made by `visit_arbitrary_function` or
`visit_curried_arbitrary_function` has an aggregate whose first parameter is a
call, not a column, so `extract_expression` fails its assertion on it. -/
theorem extractLeafExpression_arbitraryFunction {form : FunctionForm} {v v' : MQLVisitor}
    {r : InitialParseResult} (hform : form.isArbitrary = true)
    (h : visitFunctionForm form v = .ok (r, v')) (wrap : Option String → Option String) :
    ∃ e, r.expression = some e ∧ extractLeafExpression wrap e.expression r.tableAlias =
      .error .assertionError := by
  rcases form with call | ⟨name, call, params⟩ | ⟨name, aggParams, call, params⟩
  · cases hform
  all_goals
    simp only [visitFunctionForm, bind_eq_ok] at h
    obtain ⟨⟨target, v₁⟩, hcall, ht⟩ := h
    rw [visitAggregateCall_expression hcall] at ht
    cases call <;> simp only [pure_eq_ok, Except.ok.injEq, Prod.mk.injEq] at ht <;>
      first | (obtain ⟨rfl, rfl⟩ := ht; exact ⟨_, rfl, rfl⟩) | cases ht

/-- A formula whose operands are all numbers has no leaf, and
`join_nodes[0]` raises `IndexError`. -/
theorem convertFormulaToQuery_no_leaves {parsed : InitialParseResult} {f : String}
    (hf : parsed.formula = some f) (hleaves : findAllLeafNodesNode parsed = [])
    (dataset : Dataset) :
    convertFormulaToQuery parsed dataset = .error (.indexError "list index out of range") := by
  simp [convertFormulaToQuery, hf, buildFormulaQueryFromClause, findAllLeafNodes, hleaves]

/-- The filter `x:a OR y:b`. -/
def xOrY : FilterExpr :=
  .filterExpr (.filterTerm (.comparison false "x" (.string (.unquoted "a"))) [])
    [.filterTerm (.comparison false "y" (.string (.unquoted "b"))) []]

/-- `sum(d:transactions/a@none{x:a OR y:b}) * 2`. -/
def orFilteredTimesTwo : MqlExpression :=
  .expression (.term (.unary false (.filter (.filter (.function
      ⟨.aggregate (.aggregate "sum" ⟨.unquotedMri "d:transactions/a@none", some (some xOrY), none⟩), none⟩)
      none none)))
    [(.mul, .unary false (.number 2))]) []

/-- A row of `d:transactions/a@none` where neither `x = a` nor `y = b`. -/
def rowOfDa : Row := fun _ column => if column = "metric_id" then .str "d:transactions/a@none" else .str "c"

/-- The plan of `sum(d:transactions/a@none{x:a OR y:b}) * 2` keeps only the `metric_id`
condition, which holds in a row where the filter does not. -/
theorem parseMqlQueryBody_orFilteredTimesTwo :
    ∃ q c φ, parseMqlQueryBody "sum(d:transactions/a@none{x:a OR y:b}) * 2" (.tree orFilteredTimesTwo)
        ⟨"generic_metrics"⟩ = .ok q ∧
      q.condition = some c ∧ visitFilterExpr xOrY = .ok φ ∧
      c = binaryCondition "equals" (.column none none "metric_id") (.literal none (.str "d:transactions/a@none")) ∧
      c.holds rowOfDa = true ∧ φ.holds rowOfDa = false :=
  ⟨_, _, _, rfl, rfl, rfl, rfl, rfl, rfl⟩

/-- `apdex(sum(d:transactions/a@none), 300) * 2`. -/
def apdexTimesTwo : MqlExpression :=
  .expression (.term (.unary false (.filter (.filter (.function
      ⟨.arbitraryFunction "apdex" (.ofMri "sum" "d:transactions/a@none") [.number 300], none⟩) none none)))
    [(.mul, .unary false (.number 2))]) []

/-- `convert_formula_to_query` fails its assertion on the formula of
`apdex(sum(d:transactions/a@none), 300) * 2`. -/
theorem convertFormulaToQuery_apdexTimesTwo :
    ∃ r v, visitMql apdexTimesTwo = .ok (.inl r, v) ∧
      convertFormulaToQuery r ⟨"generic_metrics"⟩ = .error .assertionError :=
  ⟨_, _, rfl, rfl⟩

/-! ## What every plan has -/

theorem convertFormulaToQuery_plan {parsed : InitialParseResult} {dataset : Dataset} {P : Query}
    (h : convertFormulaToQuery parsed dataset = .ok P) :
    (∃ c₀, P.condition = some c₀) ∧ ∃ q nodes,
      buildFormulaQueryFromClause parsed dataset = .ok (q, nodes) ∧ P.fromClause = q.fromClause := by
  unfold convertFormulaToQuery at h
  split at h
  · cases h
  simp only [bind_eq_ok, pure_eq_ok, Except.ok.injEq] at h
  obtain ⟨⟨q, nodes⟩, hq, _, -, _, -, _, -, rfl⟩ := h
  refine ⟨⟨_, by rw [Query.addConditionToAst_eq]⟩, q, nodes, hq, ?_⟩
  rw [Query.addConditionToAst_eq]
  split_ifs <;> rfl

theorem convertTimeseriesToQuery_plan {parsed : InitialParseResult} {dataset : Dataset}
    {P : Query} (h : convertTimeseriesToQuery parsed dataset = .ok P) :
    (∃ c₀, P.condition = some c₀) ∧ ∃ e, P.fromClause = .entity e := by
  unfold convertTimeseriesToQuery at h
  split at h
  · cases h
  split at h
  · cases h
  simp only [bind_eq_ok, pure_eq_ok, Except.ok.injEq] at h
  obtain ⟨_, -, _, -, rfl⟩ := h
  exact ⟨⟨_, rfl⟩, _, rfl⟩

/-! ## Errors that escape `parse_mql_query_body` -/

/-- A root that is a number has no attribute `expression`. -/
theorem parseMqlQueryBody_number_root {t : MqlExpression} {x : ℚ} {v : MQLVisitor}
    (h : visitMql t = .ok (.inr x, v)) (body : String) (dataset : Dataset) :
    parseMqlQueryBody body (.tree t) dataset =
      .error (.attributeError "\x27float\x27 object has no attribute \x27expression\x27") := by
  simp [parseMqlQueryBody, h]

/-- The bare number `1` raises `AttributeError`, not an
`InvalidQueryException`. -/
theorem parseMqlQueryBody_one (dataset : Dataset) :
    ∃ e, parseMqlQueryBody "1" (.tree (.expression (.ofNumber 1) [])) dataset = .error e ∧
      e.isInvalidQuery = false :=
  ⟨_, rfl, rfl⟩

end SnubaMql
