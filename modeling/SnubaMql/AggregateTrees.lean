import SnubaMql.FormulaPlan

/-! # The visitor builds trees of aggregates

An MQL expression whose metrics all sit in plain or curried aggregates (no
arbitrary-function call, no bare metric: `aggregatesOnly`) is visited into a
tree that `convert_formula_to_query` handles as the spec says
(`visitMql_shaped`): every operator is named, every leaf holds the aggregate
`visit_aggregate` or `visit_curried_aggregate` set, the conditions that
`visit_inner_filter` and `visit_filter` attach are calls, and the group bys
are columns. The proof is one walk over the syntax, with a step lemma for
each way the visitor builds or changes a node; `pushdown_values` is the one
that needs its own induction.

`parseMqlQueryBody_selected` then states the select list of every plan
`parse_mql_query_body` compiles from such a formula.
-/

namespace SnubaMql

/-! ## The syntax of aggregates -/

mutual
/-- Every metric of the expression sits in a plain or curried aggregate. -/
def MqlExpression.aggregatesOnly : MqlExpression → Bool
  | .expression first rest => first.aggregatesOnly && MqlExpression.othersAggregatesOnly rest
/-- The repetitions of an expression hold aggregates only. -/
def MqlExpression.othersAggregatesOnly : List (ExprOp × MqlTerm) → Bool
  | [] => true
  | (_, t) :: rest => t.aggregatesOnly && MqlExpression.othersAggregatesOnly rest
/-- Every metric of the term sits in a plain or curried aggregate. -/
def MqlTerm.aggregatesOnly : MqlTerm → Bool
  | .term first rest => first.aggregatesOnly && MqlTerm.othersAggregatesOnly rest
/-- The repetitions of a term hold aggregates only. -/
def MqlTerm.othersAggregatesOnly : List (TermOp × MqlUnary) → Bool
  | [] => true
  | (_, u) :: rest => u.aggregatesOnly && MqlTerm.othersAggregatesOnly rest
/-- Every metric of the unary sits in a plain or curried aggregate. -/
def MqlUnary.aggregatesOnly : MqlUnary → Bool
  | .unary _ c => c.aggregatesOnly
/-- A number, or a filter over aggregates only. -/
def MqlCoefficient.aggregatesOnly : MqlCoefficient → Bool
  | .number _ => true
  | .filter f => f.aggregatesOnly
/-- A filter whose target holds aggregates only. -/
def MqlFilter.aggregatesOnly : MqlFilter → Bool
  | .filter target _ _ => target.aggregatesOnly
/-- A target other than a bare metric or an arbitrary-function call. -/
def MqlTarget.aggregatesOnly : MqlTarget → Bool
  | .variable _ => true
  | .nestedExpression e => e.aggregatesOnly
  | .function f => !f.form.isArbitrary
  | .metric _ => false
end

/-! ## The pieces the visitor builds from -/

theorem filter_isCall {first : Expression} (h : first.isCall = true) (operator : String)
    (others : List Expression) : (MQLVisitor.filter operator first others).isCall = true := by
  cases others
  · exact h
  · rfl

mutual
theorem visitFilterExpr_isCall : ∀ (e : FilterExpr) (c : Expression),
    visitFilterExpr e = .ok c → c.isCall = true
  | .filterExpr first rest, c, h => by
      simp only [visitFilterExpr, bind_eq_ok, pure_eq_ok, Except.ok.injEq] at h
      obtain ⟨c₁, h₁, _, -, rfl⟩ := h
      exact filter_isCall (visitFilterTerm_isCall first c₁ h₁) _ _
theorem visitFilterTerm_isCall : ∀ (t : FilterTerm) (c : Expression),
    visitFilterTerm t = .ok c → c.isCall = true
  | .filterTerm first rest, c, h => by
      simp only [visitFilterTerm, bind_eq_ok, pure_eq_ok, Except.ok.injEq] at h
      obtain ⟨c₁, h₁, _, -, rfl⟩ := h
      exact filter_isCall (visitFilterFactor_isCall first c₁ h₁) _ _
theorem visitFilterFactor_isCall : ∀ (f : FilterFactor) (c : Expression),
    visitFilterFactor f = .ok c → c.isCall = true
  | .comparison negated tagKey value, c, h => by
      simp only [visitFilterFactor, bind_eq_ok, pure_eq_ok, Except.ok.injEq] at h
      obtain ⟨rhs, -, rfl⟩ := h
      exact Expression.isComparison_isCall (visitComparison_isComparison negated tagKey rhs)
  | .nested e, c, h => visitFilterExpr_isCall e c h
end

/-- A filter block gives no condition, or the condition of its filter
expression. -/
theorem visitFilterBlock_ok {block : FilterBlock} {c : Option Expression}
    (h : visitFilterBlock block = .ok c) :
    c = none ∨ ∃ e x, block = some (some e) ∧ visitFilterExpr e = .ok x ∧ c = some x := by
  rcases block with _ | _ | e
  · cases h; exact .inl rfl
  · cases h; exact .inl rfl
  · simp only [visitFilterBlock, Functor.map, Except.map] at h
    split at h
    · cases h
    · next x hx => exact .inr ⟨e, x, rfl, hx, (Except.ok.inj h).symm⟩

/-- The condition of a filter block is a call. -/
theorem visitFilterBlock_isCall {block : FilterBlock} {c : Option Expression}
    (h : visitFilterBlock block = .ok c) : (c.toList).all Expression.isCall = true := by
  obtain rfl | ⟨e, x, -, hx, rfl⟩ := visitFilterBlock_ok h
  · rfl
  · simp [visitFilterExpr_isCall e x hx]

@[simp] theorem visitGroupBy_columns (g : GroupBy) :
    (visitGroupBy g).all (·.expression.isColumn) = true := by
  simp [visitGroupBy, Expression.isColumn]

/-- Appending a clause of calls and columns keeps an aggregate leaf one. -/
theorem isAggregateLeaf_attach {r : InitialParseResult} (hr : r.isAggregateLeaf = true)
    {c : Option Expression} (hc : (c.toList).all Expression.isCall = true)
    {g : List SelectedExpression} (hg : g.all (·.expression.isColumn) = true) :
    (r.attach c g).isAggregateLeaf = true := by
  obtain ⟨hf, ⟨e, he, hagg⟩, hcs, hgs⟩ := InitialParseResult.isAggregateLeaf_spec hr
  simp only [InitialParseResult.isAggregateLeaf, InitialParseResult.attach, hf, he,
    Option.isNone_none, Option.map_some', Option.getD_some, hagg, Bool.true_and, Bool.and_eq_true]
  refine ⟨?_, ?_⟩
  · rcases c with _ | c
    · exact hcs
    · simp only [appendField_eq, Option.getD_some, List.all_append, hcs, Bool.true_and]
      simpa using hc
  · split_ifs
    · exact hgs
    · simp only [appendField_eq, Option.getD_some, List.all_append, hgs, hg, Bool.and_self]

/-- `pushdown_values` keeps a tree of aggregates one when the clause is made
of calls and columns. -/
theorem pushdownList_shaped {c : Option Expression} {g : List SelectedExpression}
    (hc : (c.toList).all Expression.isCall = true) (hg : g.all (·.expression.isColumn) = true)
    (ps : List FormulaParameter) :
    ∀ ps', pushdownList c g ps = .ok ps' → shapedList ps = true → shapedList ps' = true := by
  refine pushdownList.induct c g
    (fun r => ∀ r', pushdownNode c g r = .ok r' → shapedNode r = true → shapedNode r' = true)
    (fun ps => ∀ ps', pushdownList c g ps = .ok ps' → shapedList ps = true →
      shapedList ps' = true)
    (fun p => ∀ p', pushdownValues c g p = .ok p' → shapedParam p = true →
      shapedParam p' = true)
    ?formulaWithoutParameters ?formula ?leaf ?empty ?nil ?cons ?node ?number ps
  case formulaWithoutParameters =>
    intro e f gs cs m a r' h hs
    simp only [pushdownNode.eq_1, pure_eq_ok, Except.ok.injEq] at h
    exact h ▸ hs
  case formula =>
    intro e f ps gs cs m a ih r' h hs
    simp only [pushdownNode.eq_2, bind_eq_ok, pure_eq_ok, Except.ok.injEq] at h
    obtain ⟨ps', hps, rfl⟩ := h
    rcases e with _ | e
    · simp only [shapedNode, Bool.and_eq_true] at hs ⊢
      exact ⟨hs.1, ih ps' hps hs.2⟩
    · simp [shapedNode, InitialParseResult.isAggregateLeaf] at hs
  case leaf =>
    intro e ps gs cs m a r' h hs
    simp only [pushdownNode.eq_3, pure_eq_ok, Except.ok.injEq] at h
    subst h
    rw [shapedNode_of_expression rfl] at hs ⊢
    exact isAggregateLeaf_attach hs hc hg
  case empty => intro ps gs cs m a r' h; simp [pushdownNode.eq_4] at h
  case nil => intro ps' h _; cases h; rfl
  case cons =>
    intro p ps ihp ihps qs h hs
    obtain ⟨p', ps', hp, hps, rfl⟩ := pushdownList_cons_ok h
    simp only [shapedList, Bool.and_eq_true] at hs ⊢
    exact ⟨ihp p' hp hs.1, ihps ps' hps hs.2⟩
  case node =>
    intro r ih p' h hs
    obtain ⟨r', hr, rfl⟩ := pushdownValues_inl_ok h
    exact ih r' hr hs
  case number => intro x p' h _; cases h; rfl

/-- The body of `visit_filter` keeps a tree of aggregates one. -/
theorem applyFilterClause_shaped {target r : InitialParseResult} {c : Option Expression}
    {g : List SelectedExpression} (h : applyFilterClause target c g = .ok r)
    (ht : shapedNode target = true) (hc : (c.toList).all Expression.isCall = true)
    (hg : g.all (·.expression.isColumn) = true) : shapedNode r = true := by
  unfold applyFilterClause at h
  split_ifs at h with hclause hformula
  · obtain ⟨e, _ | f, ps, gs, cs, m, a⟩ := target
    · cases hformula
    rcases ps with _ | ps
    · cases h; exact ht
    simp only [bind_eq_ok, pure_eq_ok, Except.ok.injEq] at h
    obtain ⟨ps', hps, rfl⟩ := h
    rcases e with _ | e
    · simp only [shapedNode, Bool.and_eq_true] at ht ⊢
      exact ⟨ht.1, pushdownList_shaped hc hg ps ps' hps ht.2⟩
    · simp [shapedNode, InitialParseResult.isAggregateLeaf] at ht
  · cases h
    obtain ⟨_ | e, _ | f, ps, gs, cs, m, a⟩ := target
    · cases ps <;> simp [shapedNode] at ht
    · simp at hformula
    · exact isAggregateLeaf_attach ht hc hg
    · simp at hformula
  · cases h; exact ht

/-! ## The leaves and the operators the visitor builds -/

theorem visitMetric_metricNode {m : Metric} {v v' : MQLVisitor} {r : InitialParseResult}
    (h : visitMetric m v = .ok (r, v')) : ∃ mri a, r = .metricNode mri a := by
  cases m with
  | quotedMri text | unquotedMri text =>
      simp only [visitMetric, bind_eq_ok, pure_eq_ok, Except.ok.injEq, Prod.mk.injEq] at h
      obtain ⟨⟨a, v₁⟩, -, rfl, rfl⟩ := h
      exact ⟨_, _, rfl⟩
  | quotedPublicName _ | unquotedPublicName _ => cases h

/-- A leaf of `visit_aggregate` or `visit_curried_aggregate` is an aggregate
leaf. -/
theorem visitAggregateCall_isAggregateLeaf {call : AggregateCall} {v v' : MQLVisitor}
    {r : InitialParseResult} (h : visitAggregateCall call v = .ok (r, v')) :
    r.isAggregateLeaf = true := by
  simp only [visitAggregateCall, visitInnerFilter, bind_eq_ok, pure_eq_ok, Except.ok.injEq,
    Prod.mk.injEq] at h
  obtain ⟨⟨target, v₁⟩, ⟨⟨leaf, v₂⟩, hm, c, hc, rfl, rfl⟩, rfl, rfl⟩ := h
  obtain ⟨mri, a, rfl⟩ := visitMetric_metricNode hm
  have hcall := visitFilterBlock_isCall hc
  simp only [InitialParseResult.isAggregateLeaf]
  split <;> split <;>
    simp_all [InitialParseResult.metricNode, AggregateCall.selectedAggregate_isAggregate]

/-- The leaf of a plain or curried aggregate call, after its trailing group
by, is an aggregate leaf. -/
theorem visitFunction_isAggregateLeaf {f : MqlFunction} (hf : f.form.isArbitrary = false)
    {v v' : MQLVisitor} {r : InitialParseResult} (h : visitFunction f v = .ok (r, v')) :
    r.isAggregateLeaf = true := by
  obtain ⟨form, g⟩ := f
  rcases form with call | _ | _
  rotate_left
  · cases hf
  · cases hf
  simp only [visitFunction, visitFunctionForm, bind_eq_ok] at h
  obtain ⟨⟨target, v₁⟩, hcall, hr⟩ := h
  have ht := visitAggregateCall_isAggregateLeaf hcall
  split at hr <;> simp only [pure_eq_ok, Except.ok.injEq, Prod.mk.injEq] at hr <;>
    obtain ⟨rfl, rfl⟩ := hr
  · obtain ⟨hf, ⟨e, he, hagg⟩, hcs, -⟩ := InitialParseResult.isAggregateLeaf_spec ht
    simp [InitialParseResult.isAggregateLeaf, hf, he, hagg, hcs]
  · exact ht

theorem ExprOp.visit_ne_empty (op : ExprOp) : op.visit ≠ "" := by
  cases op <;> decide

theorem TermOp.visit_ne_empty (op : TermOp) : op.visit ≠ "" := by
  cases op <;> decide

theorem combineFirstRepetition_shaped {term : FormulaParameter} (ht : shapedParam term = true)
    {others : List (String × FormulaParameter)}
    (ho : ∀ p ∈ others, p.1 ≠ "" ∧ shapedParam p.2 = true) :
    shapedParam (combineFirstRepetition term others) = true := by
  rcases others with _ | ⟨⟨op, c⟩, others⟩
  · exact ht
  · obtain ⟨hop, hc⟩ := ho (op, c) (List.mem_cons_self _ _)
    simp [combineFirstRepetition, InitialParseResult.formulaNode, shapedParam, shapedNode,
      shapedList, hop, ht, hc]

theorem negateParameter_shaped {p : FormulaParameter} (h : shapedParam p = true) :
    shapedParam (negateParameter p) = true := by
  rcases p with r | x
  · show ("negate" != "" && (shapedParam (.inl r) && true)) = true
    rw [h]; rfl
  · rfl

/-! ## The walk over the syntax -/

mutual
theorem visitExpression_shaped : ∀ (e : MqlExpression) (v v' : MQLVisitor)
    (r : FormulaParameter), visitExpression e v = .ok (r, v') → e.aggregatesOnly = true →
    shapedParam r = true
  | .expression first rest, v, v', r, h, ha => by
      simp only [MqlExpression.aggregatesOnly, Bool.and_eq_true] at ha
      simp only [visitExpression, bind_eq_ok, pure_eq_ok, Except.ok.injEq, Prod.mk.injEq] at h
      obtain ⟨⟨term, v₁⟩, hterm, ⟨others, v₂⟩, hothers, rfl, rfl⟩ := h
      exact combineFirstRepetition_shaped (visitTerm_shaped first v v₁ term hterm ha.1)
        (visitExpressionOthers_shaped rest v₁ v₂ others hothers ha.2)
theorem visitExpressionOthers_shaped : ∀ (rest : List (ExprOp × MqlTerm)) (v v' : MQLVisitor)
    (others : List (String × FormulaParameter)), visitExpressionOthers rest v = .ok (others, v') →
    MqlExpression.othersAggregatesOnly rest = true →
    ∀ p ∈ others, p.1 ≠ "" ∧ shapedParam p.2 = true
  | [], v, v', others, h, _ => by cases h; intro p hp; cases hp
  | (op, t) :: rest, v, v', others, h, ha => by
      simp only [MqlExpression.othersAggregatesOnly, Bool.and_eq_true] at ha
      simp only [visitExpressionOthers, bind_eq_ok, pure_eq_ok, Except.ok.injEq,
        Prod.mk.injEq] at h
      obtain ⟨⟨t', v₁⟩, ht, ⟨os, v₂⟩, hos, rfl, rfl⟩ := h
      intro p hp
      rcases List.mem_cons.mp hp with rfl | hp
      · exact ⟨ExprOp.visit_ne_empty op, visitTerm_shaped t v v₁ t' ht ha.1⟩
      · exact visitExpressionOthers_shaped rest v₁ v₂ os hos ha.2 p hp
theorem visitTerm_shaped : ∀ (t : MqlTerm) (v v' : MQLVisitor) (r : FormulaParameter),
    visitTerm t v = .ok (r, v') → t.aggregatesOnly = true → shapedParam r = true
  | .term first rest, v, v', r, h, ha => by
      simp only [MqlTerm.aggregatesOnly, Bool.and_eq_true] at ha
      simp only [visitTerm, bind_eq_ok, pure_eq_ok, Except.ok.injEq, Prod.mk.injEq] at h
      obtain ⟨⟨term, v₁⟩, hterm, ⟨others, v₂⟩, hothers, rfl, rfl⟩ := h
      exact combineFirstRepetition_shaped (visitUnary_shaped first v v₁ term hterm ha.1)
        (visitTermOthers_shaped rest v₁ v₂ others hothers ha.2)
theorem visitTermOthers_shaped : ∀ (rest : List (TermOp × MqlUnary)) (v v' : MQLVisitor)
    (others : List (String × FormulaParameter)), visitTermOthers rest v = .ok (others, v') →
    MqlTerm.othersAggregatesOnly rest = true →
    ∀ p ∈ others, p.1 ≠ "" ∧ shapedParam p.2 = true
  | [], v, v', others, h, _ => by cases h; intro p hp; cases hp
  | (op, u) :: rest, v, v', others, h, ha => by
      simp only [MqlTerm.othersAggregatesOnly, Bool.and_eq_true] at ha
      simp only [visitTermOthers, bind_eq_ok, pure_eq_ok, Except.ok.injEq, Prod.mk.injEq] at h
      obtain ⟨⟨u', v₁⟩, hu, ⟨os, v₂⟩, hos, rfl, rfl⟩ := h
      intro p hp
      rcases List.mem_cons.mp hp with rfl | hp
      · exact ⟨TermOp.visit_ne_empty op, visitUnary_shaped u v v₁ u' hu ha.1⟩
      · exact visitTermOthers_shaped rest v₁ v₂ os hos ha.2 p hp
theorem visitUnary_shaped : ∀ (u : MqlUnary) (v v' : MQLVisitor) (r : FormulaParameter),
    visitUnary u v = .ok (r, v') → u.aggregatesOnly = true → shapedParam r = true
  | .unary negate c, v, v', r, h, ha => by
      simp only [visitUnary, bind_eq_ok, pure_eq_ok, Except.ok.injEq, Prod.mk.injEq] at h
      obtain ⟨⟨coefficient, v₁⟩, hc, rfl, rfl⟩ := h
      have hs := visitCoefficient_shaped c v v₁ coefficient hc ha
      cases negate
      · exact hs
      · exact negateParameter_shaped hs
theorem visitCoefficient_shaped : ∀ (c : MqlCoefficient) (v v' : MQLVisitor)
    (r : FormulaParameter), visitCoefficient c v = .ok (r, v') → c.aggregatesOnly = true →
    shapedParam r = true
  | .number _, v, v', r, h, _ => by cases h; rfl
  | .filter f, v, v', r, h, ha => by
      simp only [visitCoefficient, bind_eq_ok, pure_eq_ok, Except.ok.injEq, Prod.mk.injEq] at h
      obtain ⟨⟨r₀, v₁⟩, hf, rfl, rfl⟩ := h
      exact visitFilter_shaped f v v₁ r₀ hf ha
theorem visitFilter_shaped : ∀ (f : MqlFilter) (v v' : MQLVisitor) (r : InitialParseResult),
    visitFilter f v = .ok (r, v') → f.aggregatesOnly = true → shapedNode r = true
  | .filter target filters groupBy, v, v', r, h, ha => by
      simp only [visitFilter, bind_eq_ok, pure_eq_ok, Except.ok.injEq, Prod.mk.injEq] at h
      obtain ⟨⟨r₀, v₁⟩, ht, c, hc, r₁, hr₁, rfl, rfl⟩ := h
      exact applyFilterClause_shaped hr₁ (visitTarget_shaped target v v₁ r₀ ht ha)
        (visitFilterBlock_isCall hc) (by cases groupBy <;> simp)
theorem visitTarget_shaped : ∀ (t : MqlTarget) (v v' : MQLVisitor) (r : InitialParseResult),
    visitTarget t v = .ok (r, v') → t.aggregatesOnly = true → shapedNode r = true
  | .variable _, v, v', r, h, _ => by cases h
  | .nestedExpression e, v, v', r, h, ha => by
      simp only [visitTarget, bind_eq_ok] at h
      obtain ⟨⟨p, v₁⟩, he, hp⟩ := h
      rcases p with r₀ | x
      · simp only [pure_eq_ok, Except.ok.injEq, Prod.mk.injEq] at hp
        obtain ⟨rfl, rfl⟩ := hp
        exact visitExpression_shaped e v v₁ (.inl r₀) he ha
      · cases hp
  | .function f, v, v', r, h, ha => by
      have hleaf := visitFunction_isAggregateLeaf (by simpa [MqlTarget.aggregatesOnly] using ha) h
      obtain ⟨-, ⟨e, he, -⟩, -⟩ := InitialParseResult.isAggregateLeaf_spec hleaf
      rw [shapedNode_of_expression he]
      exact hleaf
  | .metric _, _, _, _, _, ha => by cases ha
end

/-- Over an MQL expression whose metrics all sit in plain or curried
aggregates, the visitor returns a tree of aggregates. -/
theorem visitMql_shaped {t : MqlExpression} {p : FormulaParameter} {v : MQLVisitor}
    (h : visitMql t = .ok (p, v)) (ht : t.aggregatesOnly = true) : shapedParam p = true :=
  visitExpression_shaped t _ v p h ht

/-! ## Plans compiled from formulas over aggregates -/

theorem aliasWrap_congr {q q' : Query} (h : q'.fromClause = q.fromClause) :
    aliasWrap q' = aliasWrap q := by
  funext t
  simp only [aliasWrap, Query.isLogical, h]

theorem shapedNode_formula {r : InitialParseResult} {f : String} (h : shapedNode r = true)
    (hf : r.formula = some f) : f ≠ "" ∧ shapedList (r.parameters.getD []) = true := by
  obtain ⟨_ | e, _ | f', _ | ps, g, cs, m, a⟩ := r <;> cases hf <;>
    simp_all [shapedNode, InitialParseResult.isAggregateLeaf]

/-- A plan `parse_mql_query_body` compiles from a formula over aggregates is
what `convert_formula_to_query` returns for the visitor's tree of aggregates,
whose leaves `build_formula_query_from_clause` accepts. -/
theorem parseMqlQueryBody_formula {body : String} {t : MqlExpression} {dataset : Dataset}
    {P : Query} (h : parseMqlQueryBody body (.tree t) dataset = .ok P)
    (ht : t.aggregatesOnly = true) {parsed : InitialParseResult} {v : MQLVisitor} {f : String}
    (hv : visitMql t = .ok (.inl parsed, v)) (hf : parsed.formula = some f) :
    ∃ q, shapedList (parsed.parameters.getD []) = true ∧
      buildFormulaQueryFromClause parsed dataset = .ok (q, findAllLeafNodesNode parsed) ∧
      convertFormulaToQuery parsed dataset = .ok P := by
  obtain ⟨hne, hshape⟩ := shapedNode_formula (visitMql_shaped hv ht) hf
  have hconv : convertFormulaToQuery parsed dataset = .ok P := by
    simpa [parseMqlQueryBody, hv, hf, truthy_some hne] using h
  obtain ⟨-, q, nodes, hbuild, -⟩ := convertFormulaToQuery_plan hconv
  obtain ⟨hleaves, -⟩ := buildFormulaQueryFromClause_ok hbuild
  exact ⟨q, hshape, hleaves ▸ hbuild, hconv⟩

/-- Every plan `parse_mql_query_body` compiles from a formula over plain and
curried aggregates selects `aggregate_value := E(F)`, then the leaves' common
group by qualified by each leaf's alias in turn, and groups by those columns.
A plan over one entity qualifies nothing. -/
theorem parseMqlQueryBody_selected {body : String} {t : MqlExpression} {dataset : Dataset}
    {P : Query} (h : parseMqlQueryBody body (.tree t) dataset = .ok P)
    (ht : t.aggregatesOnly = true) {parsed : InitialParseResult} {v : MQLVisitor} {f : String}
    (hv : visitMql t = .ok (.inl parsed, v)) (hf : parsed.formula = some f) :
    ∃ G, (∀ L ∈ findAllLeafNodesNode parsed, L.groupby.getD [] = G) ∧
      P.selectedColumns = ⟨some aggregateAlias, .functionCall (some aggregateAlias) f
          ((parsed.parameters.getD []).map (formulaExpression (aliasWrap P)))⟩ ::
        (findAllLeafNodesNode parsed).flatMap
          (fun L => G.map (·.qualify (aliasWrap P L.tableAlias))) ∧
      P.groupby = (findAllLeafNodesNode parsed).flatMap
        (fun L => G.map (·.expression.qualify (aliasWrap P L.tableAlias))) := by
  obtain ⟨q, hshape, hbuild, hconv⟩ := parseMqlQueryBody_formula h ht hv hf
  obtain ⟨q', -, G, hq', hfrom, hG, hsel, hgb, -⟩ := convertFormulaToQuery_shaped hf hshape hbuild
  cases hconv.symm.trans hq'
  rw [aliasWrap_congr hfrom]
  exact ⟨G, hG, hsel, hgb⟩

theorem parseMqlQueryBody_selected_productOfSums :
    ∃ P parsed v, parseMqlQueryBody "sum(d:transactions/a@none{env:prod}) by x * quantiles(0.5)(d:transactions/b@none) by x"
        (.tree productOfSums) ⟨"generic_metrics"⟩ = .ok P ∧
      productOfSums.aggregatesOnly = true ∧ visitMql productOfSums = .ok (.inl parsed, v) ∧
      parsed.formula = some "multiply" ∧
      ∃ G, (∀ L ∈ findAllLeafNodesNode parsed, L.groupby.getD [] = G) ∧
        P.selectedColumns = ⟨some aggregateAlias, .functionCall (some aggregateAlias) "multiply"
            ((parsed.parameters.getD []).map (formulaExpression (aliasWrap P)))⟩ ::
          (findAllLeafNodesNode parsed).flatMap
            (fun L => G.map (·.qualify (aliasWrap P L.tableAlias))) ∧
        P.groupby = (findAllLeafNodesNode parsed).flatMap
          (fun L => G.map (·.expression.qualify (aliasWrap P L.tableAlias))) :=
  ⟨_, _, _, rfl, rfl, rfl, rfl,
    @parseMqlQueryBody_selected "sum(d:transactions/a@none{env:prod}) by x * quantiles(0.5)(d:transactions/b@none) by x"
      productOfSums ⟨"generic_metrics"⟩ _ (by rfl) (by rfl) _ _ _ (by rfl) (by rfl)⟩

end SnubaMql
