import SnubaMql.AggregateTrees

/-! # The filters of a formula reach its plan

`extract_filters` keeps a condition of a leaf only when its first argument is a
column: a single comparison `[!]tag:value` is kept, an `AND` or `OR`
combination is not. When every filter block of an MQL formula is a single
comparison (`comparisonsOnly`), every condition the visitor leaves on a leaf
is one (`visitMql_leafComparisons`), so none is lost: the plan compiled from
the formula has a condition that holds in exactly the rows where, for every
leaf, `metric_id` is the leaf's MRI and the leaf's comparisons hold
(`parseMqlQueryBody_condition_holds`).

The walk over the syntax has the shape of the one in `AggregateTrees`, with
a step lemma for each way the visitor builds or changes a node.
-/

namespace SnubaMql

/-! ## Filters that are one comparison -/

mutual
/-- The filter expression is one comparison, possibly in parentheses. -/
def FilterExpr.isComparison : FilterExpr → Bool
  | .filterExpr first [] => first.isComparison
  | .filterExpr _ (_ :: _) => false
/-- The term is one comparison. -/
def FilterTerm.isComparison : FilterTerm → Bool
  | .filterTerm first [] => first.isComparison
  | .filterTerm _ (_ :: _) => false
/-- The factor is a comparison, or a parenthesised expression that is one. -/
def FilterFactor.isComparison : FilterFactor → Bool
  | .comparison .. => true
  | .nested e => e.isComparison
end

/-- A filter block that is absent, empty or one comparison. -/
def FilterBlock.isComparison : FilterBlock → Bool
  | some (some e) => e.isComparison
  | _ => true

mutual
theorem visitFilterExpr_isComparison : ∀ (e : FilterExpr) (c : Expression),
    e.isComparison = true → visitFilterExpr e = .ok c → c.isComparison = true
  | .filterExpr first [], c, he, h => by
      simp only [visitFilterExpr, visitFilterTerms, bind_eq_ok, pure_eq_ok, Except.ok.injEq] at h
      obtain ⟨c₁, h₁, _, rfl, rfl⟩ := h
      exact visitFilterTerm_isComparison first c₁ he h₁
  | .filterExpr _ (_ :: _), _, he, _ => by simp [FilterExpr.isComparison] at he
theorem visitFilterTerm_isComparison : ∀ (t : FilterTerm) (c : Expression),
    t.isComparison = true → visitFilterTerm t = .ok c → c.isComparison = true
  | .filterTerm first [], c, he, h => by
      simp only [visitFilterTerm, visitFilterFactors, bind_eq_ok, pure_eq_ok, Except.ok.injEq] at h
      obtain ⟨c₁, h₁, _, rfl, rfl⟩ := h
      exact visitFilterFactor_isComparison first c₁ he h₁
  | .filterTerm _ (_ :: _), _, he, _ => by simp [FilterTerm.isComparison] at he
theorem visitFilterFactor_isComparison : ∀ (f : FilterFactor) (c : Expression),
    f.isComparison = true → visitFilterFactor f = .ok c → c.isComparison = true
  | .comparison negated tagKey _, c, _, h => by
      simp only [visitFilterFactor, bind_eq_ok, pure_eq_ok, Except.ok.injEq] at h
      obtain ⟨rhs, -, rfl⟩ := h
      exact visitComparison_isComparison negated tagKey rhs
  | .nested e, c, he, h => visitFilterExpr_isComparison e c he h
end

/-- The condition of a block that is one comparison is a single comparison. -/
theorem visitFilterBlock_isComparison {block : FilterBlock} {c : Option Expression}
    (hb : FilterBlock.isComparison block = true) (h : visitFilterBlock block = .ok c) :
    (c.toList).all Expression.isComparison = true := by
  obtain rfl | ⟨e, x, rfl, hx, rfl⟩ := visitFilterBlock_ok h
  · rfl
  · simp [visitFilterExpr_isComparison e x hb hx]

/-! ## The syntax of single comparisons -/

mutual
/-- Every filter block of the expression is absent, empty or one comparison. -/
def MqlExpression.comparisonsOnly : MqlExpression → Bool
  | .expression first rest => first.comparisonsOnly && MqlExpression.othersComparisonsOnly rest
/-- The repetitions of an expression filter by single comparisons only. -/
def MqlExpression.othersComparisonsOnly : List (ExprOp × MqlTerm) → Bool
  | [] => true
  | (_, t) :: rest => t.comparisonsOnly && MqlExpression.othersComparisonsOnly rest
/-- Every filter block of the term is absent, empty or one comparison. -/
def MqlTerm.comparisonsOnly : MqlTerm → Bool
  | .term first rest => first.comparisonsOnly && MqlTerm.othersComparisonsOnly rest
/-- The repetitions of a term filter by single comparisons only. -/
def MqlTerm.othersComparisonsOnly : List (TermOp × MqlUnary) → Bool
  | [] => true
  | (_, u) :: rest => u.comparisonsOnly && MqlTerm.othersComparisonsOnly rest
/-- Every filter block of the unary is absent, empty or one comparison. -/
def MqlUnary.comparisonsOnly : MqlUnary → Bool
  | .unary _ c => c.comparisonsOnly
/-- A number, or a filter by single comparisons only. -/
def MqlCoefficient.comparisonsOnly : MqlCoefficient → Bool
  | .number _ => true
  | .filter f => f.comparisonsOnly
/-- The block after the target and every block inside it are absent, empty
or one comparison. -/
def MqlFilter.comparisonsOnly : MqlFilter → Bool
  | .filter target filters _ => target.comparisonsOnly && FilterBlock.isComparison filters
/-- The inner filter of a function call is absent, empty or one comparison. -/
def MqlTarget.comparisonsOnly : MqlTarget → Bool
  | .variable _ => true
  | .nestedExpression e => e.comparisonsOnly
  | .function f => FilterBlock.isComparison f.form.call.inner.filters
  | .metric _ => true
end

/-! ## The conditions on the leaves -/

/-- Every leaf below the parameter carries single comparisons only. -/
def leafComparisons (p : FormulaParameter) : Bool :=
  ((findAllLeafNodes p).getD []).all fun L => (L.conditions.getD []).all Expression.isComparison

theorem leafComparisons_leaf {r : InitialParseResult} (h : r.formula = none) :
    leafComparisons (.inl r) = (r.conditions.getD []).all Expression.isComparison := by
  simp [leafComparisons, findAllLeafNodes, findAllLeafNodesNode_leaf h]

theorem leafComparisons_combineFirstRepetition {term : FormulaParameter}
    (ht : leafComparisons term = true) {others : List (String × FormulaParameter)}
    (ho : ∀ p ∈ others, leafComparisons p.2 = true) :
    leafComparisons (combineFirstRepetition term others) = true := by
  rcases others with _ | ⟨⟨op, c⟩, others⟩
  · exact ht
  · have hc := ho (op, c) (List.mem_cons_self _ _)
    simp only [leafComparisons] at ht hc
    simp [combineFirstRepetition, leafComparisons, InitialParseResult.formulaNode,
      findAllLeafNodes, findAllLeafNodesNode, findAllLeafNodesList, ht, hc]

theorem leafComparisons_negateParameter (p : FormulaParameter) :
    leafComparisons (negateParameter p) = leafComparisons p := by
  rcases p with r | x
  · simp [negateParameter, leafComparisons, InitialParseResult.formulaNode, findAllLeafNodes,
      findAllLeafNodesNode, findAllLeafNodesList]
  · rfl

/-- A clause of single comparisons keeps the leaves' conditions single
comparisons. -/
theorem applyFilterClause_leafComparisons {target r : InitialParseResult}
    {c : Option Expression} {g : List SelectedExpression} (h : applyFilterClause target c g = .ok r)
    (ht : leafComparisons (.inl target) = true)
    (hc : (c.toList).all Expression.isComparison = true) :
    leafComparisons (.inl r) = true := by
  simp only [leafComparisons, findAllLeafNodes, Option.getD_some] at ht ⊢
  rw [applyFilterClause_leaves h, List.all_map]
  refine List.all_eq_true.mpr fun L₀ hL₀ => ?_
  rw [Function.comp_apply, InitialParseResult.attach_conditions, List.all_append,
    List.all_eq_true.mp ht L₀ hL₀, hc, Bool.and_self]

/-- The leaf of an inner filter carries the condition of its block, and no
other. -/
theorem visitInnerFilter_conditions {f : InnerFilter} {v v' : MQLVisitor} {r : InitialParseResult}
    (h : visitInnerFilter f v = .ok (r, v')) :
    ∃ c, visitFilterBlock f.filters = .ok c ∧ r.conditions.getD [] = c.toList := by
  simp only [visitInnerFilter, bind_eq_ok, pure_eq_ok, Except.ok.injEq, Prod.mk.injEq] at h
  obtain ⟨⟨target, v₁⟩, hm, c, hc, rfl, rfl⟩ := h
  obtain ⟨mri, a, rfl⟩ := visitMetric_metricNode hm
  refine ⟨c, hc, ?_⟩
  cases c <;> cases f.groupBy <;> rfl

theorem visitAggregateCall_conditions {call : AggregateCall} {v v' : MQLVisitor}
    {r : InitialParseResult} (h : visitAggregateCall call v = .ok (r, v')) :
    ∃ c, visitFilterBlock call.inner.filters = .ok c ∧ r.conditions.getD [] = c.toList := by
  simp only [visitAggregateCall, bind_eq_ok, pure_eq_ok, Except.ok.injEq, Prod.mk.injEq] at h
  obtain ⟨⟨r₀, v₁⟩, hi, rfl, rfl⟩ := h
  obtain ⟨c, hc, hcs⟩ := visitInnerFilter_conditions hi
  exact ⟨c, hc, hcs⟩

theorem visitFunctionForm_conditions {form : FunctionForm} {v v' : MQLVisitor}
    {r : InitialParseResult} (h : visitFunctionForm form v = .ok (r, v')) :
    ∃ c, visitFilterBlock form.call.inner.filters = .ok c ∧ r.conditions.getD [] = c.toList := by
  cases form with
  | aggregate call => exact visitAggregateCall_conditions h
  | arbitraryFunction _ call _ | curriedArbitraryFunction _ _ call _ =>
      simp only [visitFunctionForm, bind_eq_ok] at h
      obtain ⟨⟨r₀, v₁⟩, hcall, hr⟩ := h
      split at hr
      · simp only [pure_eq_ok, Except.ok.injEq, Prod.mk.injEq] at hr
        obtain ⟨rfl, rfl⟩ := hr
        obtain ⟨c, hc, hcs⟩ := visitAggregateCall_conditions hcall
        exact ⟨c, hc, hcs⟩
      · cases hr

/-- The leaf of a function call carries the condition of the block inside its
parentheses, and no other. -/
theorem visitFunction_conditions {f : MqlFunction} {v v' : MQLVisitor} {r : InitialParseResult}
    (h : visitFunction f v = .ok (r, v')) :
    ∃ c, visitFilterBlock f.form.call.inner.filters = .ok c ∧ r.conditions.getD [] = c.toList := by
  simp only [visitFunction, bind_eq_ok] at h
  obtain ⟨⟨r₀, v₁⟩, hform, hr⟩ := h
  obtain ⟨c, hc, hcs⟩ := visitFunctionForm_conditions hform
  refine ⟨c, hc, ?_⟩
  split at hr <;> simp only [pure_eq_ok, Except.ok.injEq, Prod.mk.injEq] at hr <;>
    obtain ⟨rfl, rfl⟩ := hr <;> exact hcs

/-! ## The walk over the syntax -/

mutual
theorem visitExpression_leafComparisons : ∀ (e : MqlExpression) (v v' : MQLVisitor)
    (r : FormulaParameter), visitExpression e v = .ok (r, v') → e.comparisonsOnly = true →
    leafComparisons r = true
  | .expression first rest, v, v', r, h, hc => by
      simp only [MqlExpression.comparisonsOnly, Bool.and_eq_true] at hc
      simp only [visitExpression, bind_eq_ok, pure_eq_ok, Except.ok.injEq, Prod.mk.injEq] at h
      obtain ⟨⟨term, v₁⟩, hterm, ⟨others, v₂⟩, hothers, rfl, rfl⟩ := h
      exact leafComparisons_combineFirstRepetition
        (visitTerm_leafComparisons first v v₁ term hterm hc.1)
        (visitExpressionOthers_leafComparisons rest v₁ v₂ others hothers hc.2)
theorem visitExpressionOthers_leafComparisons : ∀ (rest : List (ExprOp × MqlTerm))
    (v v' : MQLVisitor) (others : List (String × FormulaParameter)),
    visitExpressionOthers rest v = .ok (others, v') →
    MqlExpression.othersComparisonsOnly rest = true → ∀ p ∈ others, leafComparisons p.2 = true
  | [], v, v', others, h, _ => by cases h; intro p hp; cases hp
  | (op, t) :: rest, v, v', others, h, hc => by
      simp only [MqlExpression.othersComparisonsOnly, Bool.and_eq_true] at hc
      simp only [visitExpressionOthers, bind_eq_ok, pure_eq_ok, Except.ok.injEq,
        Prod.mk.injEq] at h
      obtain ⟨⟨t', v₁⟩, ht, ⟨os, v₂⟩, hos, rfl, rfl⟩ := h
      intro p hp
      rcases List.mem_cons.mp hp with rfl | hp
      · exact visitTerm_leafComparisons t v v₁ t' ht hc.1
      · exact visitExpressionOthers_leafComparisons rest v₁ v₂ os hos hc.2 p hp
theorem visitTerm_leafComparisons : ∀ (t : MqlTerm) (v v' : MQLVisitor) (r : FormulaParameter),
    visitTerm t v = .ok (r, v') → t.comparisonsOnly = true → leafComparisons r = true
  | .term first rest, v, v', r, h, hc => by
      simp only [MqlTerm.comparisonsOnly, Bool.and_eq_true] at hc
      simp only [visitTerm, bind_eq_ok, pure_eq_ok, Except.ok.injEq, Prod.mk.injEq] at h
      obtain ⟨⟨term, v₁⟩, hterm, ⟨others, v₂⟩, hothers, rfl, rfl⟩ := h
      exact leafComparisons_combineFirstRepetition
        (visitUnary_leafComparisons first v v₁ term hterm hc.1)
        (visitTermOthers_leafComparisons rest v₁ v₂ others hothers hc.2)
theorem visitTermOthers_leafComparisons : ∀ (rest : List (TermOp × MqlUnary))
    (v v' : MQLVisitor) (others : List (String × FormulaParameter)),
    visitTermOthers rest v = .ok (others, v') →
    MqlTerm.othersComparisonsOnly rest = true → ∀ p ∈ others, leafComparisons p.2 = true
  | [], v, v', others, h, _ => by cases h; intro p hp; cases hp
  | (op, u) :: rest, v, v', others, h, hc => by
      simp only [MqlTerm.othersComparisonsOnly, Bool.and_eq_true] at hc
      simp only [visitTermOthers, bind_eq_ok, pure_eq_ok, Except.ok.injEq, Prod.mk.injEq] at h
      obtain ⟨⟨u', v₁⟩, hu, ⟨os, v₂⟩, hos, rfl, rfl⟩ := h
      intro p hp
      rcases List.mem_cons.mp hp with rfl | hp
      · exact visitUnary_leafComparisons u v v₁ u' hu hc.1
      · exact visitTermOthers_leafComparisons rest v₁ v₂ os hos hc.2 p hp
theorem visitUnary_leafComparisons : ∀ (u : MqlUnary) (v v' : MQLVisitor) (r : FormulaParameter),
    visitUnary u v = .ok (r, v') → u.comparisonsOnly = true → leafComparisons r = true
  | .unary negate c, v, v', r, h, hc => by
      simp only [visitUnary, bind_eq_ok, pure_eq_ok, Except.ok.injEq, Prod.mk.injEq] at h
      obtain ⟨⟨coefficient, v₁⟩, hcoef, rfl, rfl⟩ := h
      have hs := visitCoefficient_leafComparisons c v v₁ coefficient hcoef hc
      cases negate
      · exact hs
      · exact (leafComparisons_negateParameter coefficient).trans hs
theorem visitCoefficient_leafComparisons : ∀ (c : MqlCoefficient) (v v' : MQLVisitor)
    (r : FormulaParameter), visitCoefficient c v = .ok (r, v') → c.comparisonsOnly = true →
    leafComparisons r = true
  | .number _, v, v', r, h, _ => by cases h; rfl
  | .filter f, v, v', r, h, hc => by
      simp only [visitCoefficient, bind_eq_ok, pure_eq_ok, Except.ok.injEq, Prod.mk.injEq] at h
      obtain ⟨⟨r₀, v₁⟩, hf, rfl, rfl⟩ := h
      exact visitFilter_leafComparisons f v v₁ r₀ hf hc
theorem visitFilter_leafComparisons : ∀ (f : MqlFilter) (v v' : MQLVisitor)
    (r : InitialParseResult), visitFilter f v = .ok (r, v') → f.comparisonsOnly = true →
    leafComparisons (.inl r) = true
  | .filter target filters groupBy, v, v', r, h, hc => by
      simp only [MqlFilter.comparisonsOnly, Bool.and_eq_true] at hc
      simp only [visitFilter, bind_eq_ok, pure_eq_ok, Except.ok.injEq, Prod.mk.injEq] at h
      obtain ⟨⟨r₀, v₁⟩, ht, c, hblock, r₁, hr₁, rfl, rfl⟩ := h
      exact applyFilterClause_leafComparisons hr₁
        (visitTarget_leafComparisons target v v₁ r₀ ht hc.1)
        (visitFilterBlock_isComparison hc.2 hblock)
theorem visitTarget_leafComparisons : ∀ (t : MqlTarget) (v v' : MQLVisitor)
    (r : InitialParseResult), visitTarget t v = .ok (r, v') → t.comparisonsOnly = true →
    leafComparisons (.inl r) = true
  | .variable _, v, v', r, h, _ => by cases h
  | .nestedExpression e, v, v', r, h, hc => by
      simp only [visitTarget, bind_eq_ok] at h
      obtain ⟨⟨p, v₁⟩, he, hp⟩ := h
      rcases p with r₀ | x
      · simp only [pure_eq_ok, Except.ok.injEq, Prod.mk.injEq] at hp
        obtain ⟨rfl, rfl⟩ := hp
        exact visitExpression_leafComparisons e v v₁ (.inl r₀) he hc
      · cases hp
  | .function f, v, v', r, h, hc => by
      obtain ⟨c, hblock, hconds⟩ := visitFunction_conditions h
      rw [leafComparisons_leaf (visitFunction_leaf h).1, hconds]
      exact visitFilterBlock_isComparison hc hblock
  | .metric m, v, v', r, h, _ => by
      obtain ⟨mri, a, rfl⟩ := visitMetric_metricNode h
      rfl
end

/-- Over an MQL expression whose filter blocks are single comparisons, every
condition on a leaf of the visitor's tree is a single comparison. -/
theorem visitMql_leafComparisons {t : MqlExpression} {p : FormulaParameter} {v : MQLVisitor}
    (h : visitMql t = .ok (p, v)) (hc : t.comparisonsOnly = true) : leafComparisons p = true :=
  visitExpression_leafComparisons t _ v p h hc

/-! ## The condition of the plan -/

/-- Every plan `parse_mql_query_body` compiles from a formula over plain and
curried aggregates whose filter blocks are single comparisons has a condition,
and it holds in exactly the rows where, for every leaf of the formula,
`metric_id` is the leaf's MRI and every comparison the leaf carries holds, its
column qualified by the leaf's alias when the plan is a join. -/
theorem parseMqlQueryBody_condition_holds {body : String} {t : MqlExpression}
    {dataset : Dataset} {P : Query} (h : parseMqlQueryBody body (.tree t) dataset = .ok P)
    (ht : t.aggregatesOnly = true) (hcmp : t.comparisonsOnly = true)
    {parsed : InitialParseResult} {v : MQLVisitor} {f : String}
    (hv : visitMql t = .ok (.inl parsed, v)) (hf : parsed.formula = some f) :
    ∃ c, P.condition = some c ∧ (∀ L ∈ findAllLeafNodesNode parsed, ∃ m, L.mri = some m) ∧
      ∀ row, c.holds row = (findAllLeafNodesNode parsed).all fun L =>
        (row (aliasWrap P L.tableAlias) "metric_id" == .str (L.mri.getD "")) &&
          Expression.holdsAll row
            ((L.conditions.getD []).map (·.qualify (aliasWrap P L.tableAlias))) := by
  obtain ⟨q, hshape, hbuild, hconv⟩ := parseMqlQueryBody_formula h ht hv hf
  obtain ⟨-, -, -, hmri, -⟩ := buildFormulaQueryFromClause_ok hbuild
  obtain ⟨q', c, -, hq', hfrom, -, -, -, hcond, hc⟩ := convertFormulaToQuery_shaped hf hshape hbuild
  cases hconv.symm.trans hq'
  have hleaves : ∀ L ∈ findAllLeafNodesNode parsed,
      (L.conditions.getD []).all Expression.isComparison = true := by
    simpa [leafComparisons, findAllLeafNodes] using visitMql_leafComparisons hv hcmp
  refine ⟨c, hcond, hmri, fun row => ?_⟩
  rw [aliasWrap_congr hfrom, combineAndConditions_holds row _ c hc, holdsAll_flatMap]
  refine all_congr_mem fun L hL => ?_
  obtain ⟨m, hm⟩ := hmri L hL
  rw [leafFilters_holds _ row hm (hleaves L hL), hm, Option.getD_some]

theorem parseMqlQueryBody_condition_holds_productOfSums :
    ∃ P parsed v, parseMqlQueryBody "sum(d:transactions/a@none{env:prod}) by x * quantiles(0.5)(d:transactions/b@none) by x"
        (.tree productOfSums) ⟨"generic_metrics"⟩ = .ok P ∧
      productOfSums.aggregatesOnly = true ∧ productOfSums.comparisonsOnly = true ∧
      visitMql productOfSums = .ok (.inl parsed, v) ∧ parsed.formula = some "multiply" ∧
      ∃ c, P.condition = some c ∧ (∀ L ∈ findAllLeafNodesNode parsed, ∃ m, L.mri = some m) ∧
        ∀ row, c.holds row = (findAllLeafNodesNode parsed).all fun L =>
          (row (aliasWrap P L.tableAlias) "metric_id" == .str (L.mri.getD "")) &&
            Expression.holdsAll row
              ((L.conditions.getD []).map (·.qualify (aliasWrap P L.tableAlias))) :=
  ⟨_, _, _, rfl, rfl, rfl, rfl, rfl,
    @parseMqlQueryBody_condition_holds "sum(d:transactions/a@none{env:prod}) by x * quantiles(0.5)(d:transactions/b@none) by x"
      productOfSums ⟨"generic_metrics"⟩ _ (by rfl) (by rfl) (by rfl) _ _ _ (by rfl) (by rfl)⟩

end SnubaMql
