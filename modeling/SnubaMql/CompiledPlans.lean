import SnubaMql.AggregateTrees
import SnubaMql.PostProcessing

/-! # Compiled plans never make `quantiles_to_quantile` raise

`quantiles_to_quantile` raises an `AttributeError` on a curried call whose
internal function is not a call (`quantilesToQuantile_result`). No plan of the
pipeline has one. The visitor builds curried calls in two places only,
`visit_curried_aggregate` and `visit_curried_arbitrary_function`, each over a
call; its conditions are comparisons combined by `and` and `or`, and its group
bys are columns. So every node of every tree the visitor returns carries
trees whose curried calls are over calls (`visitMql_typed`);
`convert_formula_to_query` and `convert_timeseries_to_query` keep that
(`parseMqlQueryBody_typed`), and population adds no curried call.

On every plan `parse_mql_query_body` compiles and every context,
`quantiles_to_quantile` run on the populated plan therefore never raises: it
gives the population of the plan rewritten as the spec states it
(`parseMqlQueryBody_quantilesToQuantile`). The steps `parse_mql_query_new`
runs between the two, `resolve_mappings` and the shared post-processors, come
from other modules and are not part of the model.
-/

namespace SnubaMql

open Expression

/-! ## The conditions and group bys the visitor builds -/

theorem visitComparison_inert (negated : Bool) (tagKey : String) (rhs : String ⊕ List String) :
    Inert (visitComparison negated tagKey rhs) := by
  cases rhs <;> simp [visitComparison, Inert.functionCall]

theorem filter_inert {first : Expression} (h : Inert first) (operator : String)
    {others : List Expression} (ho : ∀ c ∈ others, Inert c) :
    Inert (MQLVisitor.filter operator first others) := by
  cases others with
  | nil => exact h
  | cons c cs => exact Inert.functionCall (List.forall_mem_cons.mpr ⟨h, ho⟩)

mutual
theorem visitFilterExpr_inert : ∀ (e : FilterExpr) (c : Expression),
    visitFilterExpr e = .ok c → Inert c
  | .filterExpr first rest, c, h => by
      simp only [visitFilterExpr, bind_eq_ok, pure_eq_ok, Except.ok.injEq] at h
      obtain ⟨c₁, h₁, cs, hcs, rfl⟩ := h
      exact filter_inert (visitFilterTerm_inert first c₁ h₁) "or" (visitFilterTerms_inert rest cs hcs)
theorem visitFilterTerms_inert : ∀ (ts : List FilterTerm) (cs : List Expression),
    visitFilterTerms ts = .ok cs → ∀ c ∈ cs, Inert c
  | [], cs, h => by cases h; simp
  | t :: ts, cs, h => by
      simp only [visitFilterTerms, bind_eq_ok, pure_eq_ok, Except.ok.injEq] at h
      obtain ⟨c, hc, cs', hcs', rfl⟩ := h
      exact List.forall_mem_cons.mpr
        ⟨visitFilterTerm_inert t c hc, visitFilterTerms_inert ts cs' hcs'⟩
theorem visitFilterTerm_inert : ∀ (t : FilterTerm) (c : Expression),
    visitFilterTerm t = .ok c → Inert c
  | .filterTerm first rest, c, h => by
      simp only [visitFilterTerm, bind_eq_ok, pure_eq_ok, Except.ok.injEq] at h
      obtain ⟨c₁, h₁, cs, hcs, rfl⟩ := h
      exact filter_inert (visitFilterFactor_inert first c₁ h₁) "and"
        (visitFilterFactors_inert rest cs hcs)
theorem visitFilterFactors_inert : ∀ (fs : List FilterFactor) (cs : List Expression),
    visitFilterFactors fs = .ok cs → ∀ c ∈ cs, Inert c
  | [], cs, h => by cases h; simp
  | f :: fs, cs, h => by
      simp only [visitFilterFactors, bind_eq_ok, pure_eq_ok, Except.ok.injEq] at h
      obtain ⟨c, hc, cs', hcs', rfl⟩ := h
      exact List.forall_mem_cons.mpr
        ⟨visitFilterFactor_inert f c hc, visitFilterFactors_inert fs cs' hcs'⟩
theorem visitFilterFactor_inert : ∀ (f : FilterFactor) (c : Expression),
    visitFilterFactor f = .ok c → Inert c
  | .comparison negated tagKey value, c, h => by
      simp only [visitFilterFactor, bind_eq_ok, pure_eq_ok, Except.ok.injEq] at h
      obtain ⟨rhs, -, rfl⟩ := h
      exact visitComparison_inert negated tagKey rhs
  | .nested e, c, h => visitFilterExpr_inert e c h
end

/-- The condition of a filter block has no curried call. -/
theorem visitFilterBlock_inert {block : FilterBlock} {c : Option Expression}
    (h : visitFilterBlock block = .ok c) : ∀ x ∈ c.toList, Inert x := by
  obtain rfl | ⟨e, x, -, hx, rfl⟩ := visitFilterBlock_ok h
  · simp
  · simpa using visitFilterExpr_inert e x hx

theorem visitGroupBy_typed (g : GroupBy) :
    ∀ s ∈ visitGroupBy g, s.expression.internalsAreCalls = true := by
  simp [visitGroupBy, internalsAreCalls]

/-! ## Trees whose curried calls are over calls -/

/-- The trees a node carries itself: its expression, its group by and its
conditions. -/
def InitialParseResult.trees (r : InitialParseResult) : List Expression :=
  (r.expression.map (·.expression)).toList ++ (r.groupby.getD []).map (·.expression) ++
    r.conditions.getD []

mutual
/-- Every node of the tree carries trees whose curried calls are over
calls. -/
def typedNode : InitialParseResult → Bool
  | r@⟨_, _, none, _, _, _, _⟩ => r.trees.all internalsAreCalls
  | r@⟨_, _, some ps, _, _, _, _⟩ => r.trees.all internalsAreCalls && typedList ps
/-- A number, or such a node. -/
def typedParam : FormulaParameter → Bool
  | .inl r => typedNode r
  | .inr _ => true
/-- Parameters that are all numbers or such nodes. -/
def typedList : List FormulaParameter → Bool
  | [] => true
  | p :: ps => typedParam p && typedList ps
end

theorem typedNode_iff {r : InitialParseResult} :
    typedNode r = true ↔
      (∀ e ∈ r.trees, e.internalsAreCalls = true) ∧ r.parameters.elim true typedList = true := by
  obtain ⟨e, f, _ | ps, g, cs, m, a⟩ := r <;> simp [typedNode, List.all_eq_true]

theorem typedNode_parameters {r : InitialParseResult} (h : typedNode r = true) :
    typedList (r.parameters.getD []) = true := by
  have hp := (typedNode_iff.mp h).2
  cases hps : r.parameters <;> simp_all [typedList]

/-- A tree of a node after a clause is appended is one of its own, the
clause's condition or one of the clause's group bys. -/
theorem mem_trees_attach {r : InitialParseResult} {c : Option Expression}
    {g : List SelectedExpression} {e : Expression} (he : e ∈ (r.attach c g).trees) :
    e ∈ r.trees ∨ e ∈ c.toList ∨ e ∈ g.map (·.expression) := by
  simp only [InitialParseResult.trees, InitialParseResult.attach, List.mem_append] at he ⊢
  rcases c with _ | c <;> split_ifs at he <;>
    simp only [appendField_eq, Option.getD_some, List.map_append, List.mem_append] at he <;>
    tauto

/-- Appending a clause of inert conditions and typed group bys keeps a node
typed. -/
theorem typedNode_attach {r : InitialParseResult} (hr : typedNode r = true)
    {c : Option Expression} (hc : ∀ x ∈ c.toList, Inert x)
    {g : List SelectedExpression} (hg : ∀ s ∈ g, s.expression.internalsAreCalls = true) :
    typedNode (r.attach c g) = true := by
  refine typedNode_iff.mpr ⟨fun e he => ?_, (typedNode_iff.mp hr).2⟩
  rcases mem_trees_attach he with he | he | he
  · exact (typedNode_iff.mp hr).1 e he
  · exact (hc e he).typed
  · obtain ⟨s, hs, rfl⟩ := List.mem_map.mp he
    exact hg s hs

/-- `pushdown_values` keeps a tree typed when the clause is inert and its
group bys typed. -/
theorem pushdownList_typed {c : Option Expression} {g : List SelectedExpression}
    (hc : ∀ x ∈ c.toList, Inert x) (hg : ∀ s ∈ g, s.expression.internalsAreCalls = true)
    (ps : List FormulaParameter) :
    ∀ ps', pushdownList c g ps = .ok ps' → typedList ps = true → typedList ps' = true := by
  refine pushdownList.induct c g
    (fun r => ∀ r', pushdownNode c g r = .ok r' → typedNode r = true → typedNode r' = true)
    (fun ps => ∀ ps', pushdownList c g ps = .ok ps' → typedList ps = true →
      typedList ps' = true)
    (fun p => ∀ p', pushdownValues c g p = .ok p' → typedParam p = true →
      typedParam p' = true)
    ?formulaWithoutParameters ?formula ?leaf ?empty ?nil ?cons ?node ?number ps
  case formulaWithoutParameters =>
    intro e f gs cs m a r' h hs
    simp only [pushdownNode.eq_1, pure_eq_ok, Except.ok.injEq] at h
    exact h ▸ hs
  case formula =>
    intro e f ps gs cs m a ih r' h hs
    simp only [pushdownNode.eq_2, bind_eq_ok, pure_eq_ok, Except.ok.injEq] at h
    obtain ⟨ps', hps, rfl⟩ := h
    simp only [typedNode, Bool.and_eq_true] at hs ⊢
    exact ⟨hs.1, ih ps' hps hs.2⟩
  case leaf =>
    intro e ps gs cs m a r' h hs
    simp only [pushdownNode.eq_3, pure_eq_ok, Except.ok.injEq] at h
    subst h
    exact typedNode_attach hs hc hg
  case empty => intro ps gs cs m a r' h; simp [pushdownNode.eq_4] at h
  case nil => intro ps' h _; cases h; rfl
  case cons =>
    intro p ps ihp ihps qs h hs
    obtain ⟨p', ps', hp, hps, rfl⟩ := pushdownList_cons_ok h
    simp only [typedList, Bool.and_eq_true] at hs ⊢
    exact ⟨ihp p' hp hs.1, ihps ps' hps hs.2⟩
  case node =>
    intro r ih p' h hs
    obtain ⟨r', hr, rfl⟩ := pushdownValues_inl_ok h
    exact ih r' hr hs
  case number => intro x p' h _; cases h; rfl

/-- The body of `visit_filter` keeps a tree typed. -/
theorem applyFilterClause_typed {target r : InitialParseResult} {c : Option Expression}
    {g : List SelectedExpression} (h : applyFilterClause target c g = .ok r)
    (ht : typedNode target = true) (hc : ∀ x ∈ c.toList, Inert x)
    (hg : ∀ s ∈ g, s.expression.internalsAreCalls = true) : typedNode r = true := by
  unfold applyFilterClause at h
  split_ifs at h with hclause hformula
  · obtain ⟨e, f, _ | ps, gs, cs, m, a⟩ := target
    · cases h; exact ht
    simp only [bind_eq_ok, pure_eq_ok, Except.ok.injEq] at h
    obtain ⟨ps', hps, rfl⟩ := h
    simp only [typedNode, Bool.and_eq_true] at ht ⊢
    exact ⟨ht.1, pushdownList_typed hc hg ps ps' hps ht.2⟩
  · cases h; exact typedNode_attach ht hc hg
  · cases h; exact ht

/-! ## The leaves the visitor builds -/

/-- A new expression that is typed keeps a node typed. -/
theorem typedNode_setExpression {r : InitialParseResult} (hr : typedNode r = true)
    {s : SelectedExpression} (hs : s.expression.internalsAreCalls = true) :
    typedNode { r with expression := some s } = true := by
  obtain ⟨ht, hp⟩ := typedNode_iff.mp hr
  refine typedNode_iff.mpr ⟨fun e he => ?_, hp⟩
  simp only [InitialParseResult.trees, List.mem_append, Option.map_some', Option.toList_some,
    List.mem_singleton] at he
  rcases he with (rfl | he) | he
  · exact hs
  · exact ht e (by simp [InitialParseResult.trees, he])
  · exact ht e (by simp [InitialParseResult.trees, he])

/-- The expression of a typed node is typed. -/
theorem typedNode_expression {r : InitialParseResult} (hr : typedNode r = true)
    {s : SelectedExpression} (hs : r.expression = some s) : s.expression.internalsAreCalls = true :=
  (typedNode_iff.mp hr).1 _ (by simp [InitialParseResult.trees, hs])

theorem paramLiterals_typed (params : List ParamExpression) :
    allInternalsAreCalls (paramLiterals params) = true := by
  simp [allInternalsAreCalls_eq_all, paramLiterals, internalsAreCalls]

theorem selectedAggregate_typed (call : AggregateCall) :
    call.selectedAggregate.internalsAreCalls = true := by
  cases call <;> simp [AggregateCall.selectedAggregate, internalsAreCalls, allInternalsAreCalls,
    paramLiterals_typed, isFunctionCall]

theorem visitInnerFilter_typed {f : InnerFilter} {v v' : MQLVisitor} {r : InitialParseResult}
    (h : visitInnerFilter f v = .ok (r, v')) : typedNode r = true := by
  simp only [visitInnerFilter, bind_eq_ok, pure_eq_ok, Except.ok.injEq, Prod.mk.injEq] at h
  obtain ⟨⟨target, v₁⟩, hm, c, hc, rfl, rfl⟩ := h
  obtain ⟨mri, a, rfl⟩ := visitMetric_metricNode hm
  have hc' := visitFilterBlock_inert hc
  rcases c with _ | c <;> rcases f.groupBy with _ | g <;>
    simp_all [typedNode, InitialParseResult.trees, InitialParseResult.metricNode, visitGroupBy,
      internalsAreCalls, Inert.typed]

theorem visitAggregateCall_typed {call : AggregateCall} {v v' : MQLVisitor}
    {r : InitialParseResult} (h : visitAggregateCall call v = .ok (r, v')) : typedNode r = true := by
  simp only [visitAggregateCall, bind_eq_ok, pure_eq_ok, Except.ok.injEq, Prod.mk.injEq] at h
  obtain ⟨⟨r₀, v₁⟩, hi, rfl, rfl⟩ := h
  exact typedNode_setExpression (visitInnerFilter_typed hi) (selectedAggregate_typed call)

/-- Every leaf of a function call is typed: `visit_arbitrary_function` wraps a
call in a call, and `visit_curried_arbitrary_function` wraps the aggregate in
a curried call over a call. -/
theorem visitFunctionForm_typed {form : FunctionForm} {v v' : MQLVisitor}
    {r : InitialParseResult} (h : visitFunctionForm form v = .ok (r, v')) : typedNode r = true := by
  cases form with
  | aggregate call => exact visitAggregateCall_typed h
  | arbitraryFunction _ call _ | curriedArbitraryFunction _ _ call _ =>
      simp only [visitFunctionForm, bind_eq_ok] at h
      obtain ⟨⟨r₀, v₁⟩, hcall, hr⟩ := h
      have ht := visitAggregateCall_typed hcall
      split at hr
      · rename_i he
        simp only [pure_eq_ok, Except.ok.injEq, Prod.mk.injEq] at hr
        obtain ⟨rfl, rfl⟩ := hr
        refine typedNode_setExpression ht ?_
        simpa [internalsAreCalls, allInternalsAreCalls, paramLiterals_typed, isFunctionCall]
          using typedNode_expression ht he
      · cases hr

theorem visitFunction_typed {f : MqlFunction} {v v' : MQLVisitor} {r : InitialParseResult}
    (h : visitFunction f v = .ok (r, v')) : typedNode r = true := by
  simp only [visitFunction, bind_eq_ok] at h
  obtain ⟨⟨r₀, v₁⟩, hform, hr⟩ := h
  have ht := visitFunctionForm_typed hform
  split at hr <;> simp only [pure_eq_ok, Except.ok.injEq, Prod.mk.injEq] at hr <;>
    obtain ⟨rfl, rfl⟩ := hr
  · next g _ =>
      obtain ⟨hts, hp⟩ := typedNode_iff.mp ht
      refine typedNode_iff.mpr ⟨fun e he => ?_, hp⟩
      simp only [InitialParseResult.trees, List.mem_append, Option.getD_some] at he
      rcases he with (he | he) | he
      · exact hts e (by simp [InitialParseResult.trees, he])
      · obtain ⟨s, hs, rfl⟩ := List.mem_map.mp he
        exact visitGroupBy_typed g s hs
      · exact hts e (by simp [InitialParseResult.trees, he])
  · exact ht

/-! ## The walk over the syntax -/

theorem combineFirstRepetition_typed {term : FormulaParameter} (ht : typedParam term = true)
    {others : List (String × FormulaParameter)} (ho : ∀ p ∈ others, typedParam p.2 = true) :
    typedParam (combineFirstRepetition term others) = true := by
  rcases others with _ | ⟨⟨op, c⟩, others⟩
  · exact ht
  · have hc := ho (op, c) (List.mem_cons_self _ _)
    simp [combineFirstRepetition, InitialParseResult.formulaNode, typedParam, typedNode,
      typedList, InitialParseResult.trees, ht, hc]

theorem negateParameter_typed {p : FormulaParameter} (h : typedParam p = true) :
    typedParam (negateParameter p) = true := by
  rcases p with r | x
  · simpa [negateParameter, InitialParseResult.formulaNode, typedParam, typedNode, typedList,
      InitialParseResult.trees] using h
  · rfl

mutual
theorem visitExpression_typed : ∀ (e : MqlExpression) (v v' : MQLVisitor) (r : FormulaParameter),
    visitExpression e v = .ok (r, v') → typedParam r = true
  | .expression first rest, v, v', r, h => by
      simp only [visitExpression, bind_eq_ok, pure_eq_ok, Except.ok.injEq, Prod.mk.injEq] at h
      obtain ⟨⟨term, v₁⟩, hterm, ⟨others, v₂⟩, hothers, rfl, rfl⟩ := h
      exact combineFirstRepetition_typed (visitTerm_typed first v v₁ term hterm)
        (visitExpressionOthers_typed rest v₁ v₂ others hothers)
theorem visitExpressionOthers_typed : ∀ (rest : List (ExprOp × MqlTerm)) (v v' : MQLVisitor)
    (others : List (String × FormulaParameter)), visitExpressionOthers rest v = .ok (others, v') →
    ∀ p ∈ others, typedParam p.2 = true
  | [], v, v', others, h => by cases h; intro p hp; cases hp
  | (op, t) :: rest, v, v', others, h => by
      simp only [visitExpressionOthers, bind_eq_ok, pure_eq_ok, Except.ok.injEq,
        Prod.mk.injEq] at h
      obtain ⟨⟨t', v₁⟩, ht, ⟨os, v₂⟩, hos, rfl, rfl⟩ := h
      exact List.forall_mem_cons.mpr
        ⟨visitTerm_typed t v v₁ t' ht, visitExpressionOthers_typed rest v₁ v₂ os hos⟩
theorem visitTerm_typed : ∀ (t : MqlTerm) (v v' : MQLVisitor) (r : FormulaParameter),
    visitTerm t v = .ok (r, v') → typedParam r = true
  | .term first rest, v, v', r, h => by
      simp only [visitTerm, bind_eq_ok, pure_eq_ok, Except.ok.injEq, Prod.mk.injEq] at h
      obtain ⟨⟨term, v₁⟩, hterm, ⟨others, v₂⟩, hothers, rfl, rfl⟩ := h
      exact combineFirstRepetition_typed (visitUnary_typed first v v₁ term hterm)
        (visitTermOthers_typed rest v₁ v₂ others hothers)
theorem visitTermOthers_typed : ∀ (rest : List (TermOp × MqlUnary)) (v v' : MQLVisitor)
    (others : List (String × FormulaParameter)), visitTermOthers rest v = .ok (others, v') →
    ∀ p ∈ others, typedParam p.2 = true
  | [], v, v', others, h => by cases h; intro p hp; cases hp
  | (op, u) :: rest, v, v', others, h => by
      simp only [visitTermOthers, bind_eq_ok, pure_eq_ok, Except.ok.injEq, Prod.mk.injEq] at h
      obtain ⟨⟨u', v₁⟩, hu, ⟨os, v₂⟩, hos, rfl, rfl⟩ := h
      exact List.forall_mem_cons.mpr
        ⟨visitUnary_typed u v v₁ u' hu, visitTermOthers_typed rest v₁ v₂ os hos⟩
theorem visitUnary_typed : ∀ (u : MqlUnary) (v v' : MQLVisitor) (r : FormulaParameter),
    visitUnary u v = .ok (r, v') → typedParam r = true
  | .unary negate c, v, v', r, h => by
      simp only [visitUnary, bind_eq_ok, pure_eq_ok, Except.ok.injEq, Prod.mk.injEq] at h
      obtain ⟨⟨coefficient, v₁⟩, hc, rfl, rfl⟩ := h
      have ht := visitCoefficient_typed c v v₁ coefficient hc
      cases negate
      · exact ht
      · exact negateParameter_typed ht
theorem visitCoefficient_typed : ∀ (c : MqlCoefficient) (v v' : MQLVisitor)
    (r : FormulaParameter), visitCoefficient c v = .ok (r, v') → typedParam r = true
  | .number _, v, v', r, h => by cases h; rfl
  | .filter f, v, v', r, h => by
      simp only [visitCoefficient, bind_eq_ok, pure_eq_ok, Except.ok.injEq, Prod.mk.injEq] at h
      obtain ⟨⟨r₀, v₁⟩, hf, rfl, rfl⟩ := h
      exact visitFilter_typed f v v₁ r₀ hf
theorem visitFilter_typed : ∀ (f : MqlFilter) (v v' : MQLVisitor) (r : InitialParseResult),
    visitFilter f v = .ok (r, v') → typedNode r = true
  | .filter target filters groupBy, v, v', r, h => by
      simp only [visitFilter, bind_eq_ok, pure_eq_ok, Except.ok.injEq, Prod.mk.injEq] at h
      obtain ⟨⟨r₀, v₁⟩, ht, c, hc, r₁, hr₁, rfl, rfl⟩ := h
      exact applyFilterClause_typed hr₁ (visitTarget_typed target v v₁ r₀ ht)
        (visitFilterBlock_inert hc) (by cases groupBy <;> simp [visitGroupBy, internalsAreCalls])
theorem visitTarget_typed : ∀ (t : MqlTarget) (v v' : MQLVisitor) (r : InitialParseResult),
    visitTarget t v = .ok (r, v') → typedNode r = true
  | .variable _, v, v', r, h => by cases h
  | .nestedExpression e, v, v', r, h => by
      simp only [visitTarget, bind_eq_ok] at h
      obtain ⟨⟨p, v₁⟩, he, hp⟩ := h
      rcases p with r₀ | x
      · simp only [pure_eq_ok, Except.ok.injEq, Prod.mk.injEq] at hp
        obtain ⟨rfl, rfl⟩ := hp
        exact visitExpression_typed e v v₁ (.inl r₀) he
      · cases hp
  | .function f, v, v', r, h => visitFunction_typed h
  | .metric m, v, v', r, h => by
      obtain ⟨mri, a, rfl⟩ := visitMetric_metricNode h
      rfl
end

/-- Every tree the visitor returns is typed. -/
theorem visitMql_typed {t : MqlExpression} {p : FormulaParameter} {v : MQLVisitor}
    (h : visitMql t = .ok (p, v)) : typedParam p = true :=
  visitExpression_typed t _ v p h

/-! ## The plans compiled from typed trees -/

theorem combineAndConditions_typed {cs : List Expression} {c : Expression}
    (hcs : ∀ d ∈ cs, d.internalsAreCalls = true) (h : combineAndConditions cs = .ok c) :
    c.internalsAreCalls = true :=
  combineAndConditions_forall (fun l r hl hr => by
    simp [binaryCondition, internalsAreCalls, allInternalsAreCalls, hl, hr]) hcs h

theorem filterMapM_forall {α β : Type} {f : α → Except PyException (Option β)}
    {p : α → Prop} {q : β → Prop} (hf : ∀ a b, p a → f a = .ok (some b) → q b) :
    ∀ (as : List α) (bs kept : List β), (∀ a ∈ as, p a) → (∀ b ∈ bs, q b) →
      List.filterMapM.loop f as bs = .ok kept → ∀ b ∈ kept, q b
  | [], bs, kept, _, hbs, h => by
      cases h
      simpa using hbs
  | a :: as, bs, kept, has, hbs, h => by
      rw [List.filterMapM.loop, bind_eq_ok] at h
      obtain ⟨o, ho, h⟩ := h
      have has' : ∀ x ∈ as, p x := fun x hx => has x (List.mem_cons_of_mem a hx)
      cases o with
      | none => exact filterMapM_forall hf as bs kept has' hbs h
      | some b =>
          exact filterMapM_forall hf as (b :: bs) kept has'
            (List.forall_mem_cons.mpr ⟨hf a b (has a (List.mem_cons_self a as)) ho, hbs⟩) h

section Extract

variable (wrap : Option String → Option String)

theorem extractLeafExpression_typed {e x : Expression} {t : Option String}
    (h : extractLeafExpression wrap e t = .ok x) (he : e.internalsAreCalls = true) :
    x.internalsAreCalls = true := by
  unfold extractLeafExpression at h
  split at h <;> cases h
  · rfl
  · simp_all [internalsAreCalls, allInternalsAreCalls]

/-- `extract_expression` over typed parameters gives typed trees. -/
theorem extractExpressions_typed (ps : List FormulaParameter) (h : typedList ps = true) :
    ∀ es, extractExpressions wrap ps = .ok es → ∀ e ∈ es, e.internalsAreCalls = true := by
  refine extractExpressions.induct wrap
    (fun r => typedNode r = true → ∀ x, extractExpressionNode wrap r = .ok x →
      x.internalsAreCalls = true)
    (fun ps => typedList ps = true → ∀ es, extractExpressions wrap ps = .ok es →
      ∀ e ∈ es, e.internalsAreCalls = true)
    (fun p => typedParam p = true → ∀ x, extractExpression wrap p = .ok x →
      x.internalsAreCalls = true)
    ?leaf ?emptyName ?noParameters ?formula ?neither ?nil ?cons ?node ?number ps h
  case leaf =>
    intro e f ps g cs m a h x hx
    exact extractLeafExpression_typed wrap hx (typedNode_expression h rfl)
  case emptyName => intro ps g cs m a _ x hx; cases hx
  case noParameters =>
    intro f g cs m a hf _ x hx
    simp only [extractExpressionNode, hf, if_false, Except.ok.injEq] at hx
    subst hx
    rfl
  case formula =>
    intro f g cs m a hf ps ih h x hx
    simp only [extractExpressionNode, hf, if_false, bind_eq_ok, pure_eq_ok,
      Except.ok.injEq] at hx
    obtain ⟨es, hes, rfl⟩ := hx
    simp only [typedNode, Bool.and_eq_true] at h
    simpa [internalsAreCalls, allInternalsAreCalls_eq_all] using ih h.2 es hes
  case neither => intro ps g cs m a _ x hx; cases hx
  case nil => intro _ es h; cases h; simp
  case cons =>
    intro p ps ihp ihps h es hes
    simp only [typedList, Bool.and_eq_true] at h
    simp only [extractExpressions, bind_eq_ok, pure_eq_ok, Except.ok.injEq] at hes
    obtain ⟨e, he, es', hes', rfl⟩ := hes
    exact List.forall_mem_cons.mpr ⟨ihp h.1 e he, ihps h.2 es' hes'⟩
  case node => intro r ih h x hx; exact ih h x hx
  case number => intro x _ e he; cases he; rfl

theorem qualifyCondition_typed {c x : Expression} {t : Option String}
    (h : qualifyCondition wrap t c = .ok (some x)) (hc : c.internalsAreCalls = true) :
    x.internalsAreCalls = true := by
  unfold qualifyCondition at h
  split at h <;> cases h
  simpa [internalsAreCalls, allInternalsAreCalls] using hc

/-- `extract_filters` over typed parameters gives typed conditions. -/
theorem extractFiltersList_typed (ps : List FormulaParameter) (h : typedList ps = true) :
    ∀ cs, extractFiltersList wrap ps = .ok cs → ∀ c ∈ cs, c.internalsAreCalls = true := by
  refine extractFiltersList.induct wrap
    (fun r => typedNode r = true → ∀ cs, extractFiltersNode wrap r = .ok cs →
      ∀ c ∈ cs, c.internalsAreCalls = true)
    (fun ps => typedList ps = true → ∀ cs, extractFiltersList wrap ps = .ok cs →
      ∀ c ∈ cs, c.internalsAreCalls = true)
    (fun p => typedParam p = true → ∀ cs, extractFilters wrap p = .ok cs →
      ∀ c ∈ cs, c.internalsAreCalls = true)
    ?leaf ?emptyName ?noParameters ?formula ?neither ?nil ?cons ?node ?number ps h
  case leaf =>
    intro e f ps g cs m a h kept hk
    simp only [extractFiltersNode, bind_eq_ok, pure_eq_ok, Except.ok.injEq] at hk
    obtain ⟨kept', hkept, rfl⟩ := hk
    have hcs : ∀ c ∈ cs.getD [], c.internalsAreCalls = true := fun c hc =>
      (typedNode_iff.mp h).1 c (by simp [InitialParseResult.trees, hc])
    refine List.forall_mem_append.mpr ⟨filterMapM_forall
      (fun _ _ hc hq => qualifyCondition_typed wrap hq hc) _ [] _ hcs (by simp) hkept, ?_⟩
    simp [metricIdCondition, binaryCondition, internalsAreCalls, allInternalsAreCalls]
  case emptyName => intro ps g cs m a _ x hx; cases hx
  case noParameters =>
    intro f g cs m a hf _ x hx
    simp only [extractFiltersNode, hf, if_false, Except.ok.injEq] at hx
    subst hx
    simp
  case formula =>
    intro f g cs m a hf ps ih h x hx
    simp only [extractFiltersNode, hf, if_false] at hx
    simp only [typedNode, Bool.and_eq_true] at h
    exact ih h.2 x hx
  case neither => intro ps g cs m a _ x hx; cases hx
  case nil => intro _ cs h; cases h; simp
  case cons =>
    intro p ps ihp ihps h cs hcs
    simp only [typedList, Bool.and_eq_true] at h
    simp only [extractFiltersList, bind_eq_ok, pure_eq_ok, Except.ok.injEq] at hcs
    obtain ⟨c, hc, cs', hcs', rfl⟩ := hcs
    exact List.forall_mem_append.mpr ⟨ihp h.1 c hc, ihps h.2 cs' hcs'⟩
  case node => intro r ih h x hx; exact ih h x hx
  case number => intro x _ cs h; cases h; simp

theorem hoistGroupby_typed (nodes : List InitialParseResult) :
    ∀ s ∈ hoistGroupby wrap nodes, s.expression.internalsAreCalls = true := by
  simp only [hoistGroupby, List.mem_flatMap, List.mem_filterMap]
  rintro s ⟨L, -, g, -, hg⟩
  split at hg <;> cases hg
  rfl

end Extract

/-- `convert_formula_to_query` over a typed tree gives a typed plan. -/
theorem convertFormulaToQuery_typed {parsed : InitialParseResult} {dataset : Dataset} {P : Query}
    (h : convertFormulaToQuery parsed dataset = .ok P) (hp : typedNode parsed = true) :
    P.expressions.all internalsAreCalls = true := by
  unfold convertFormulaToQuery at h
  split at h
  · cases h
  simp only [bind_eq_ok, pure_eq_ok, Except.ok.injEq] at h
  obtain ⟨⟨q, nodes⟩, hq, params, hparams, conds, hconds, c, hc, rfl⟩ := h
  obtain ⟨-, -, -, -, hquery⟩ := buildFormulaQueryFromClause_ok hq
  have hps := typedNode_parameters hp
  have hparamsT := extractExpressions_typed _ _ hps params hparams
  have hcT := combineAndConditions_typed (extractFiltersList_typed _ _ hps conds hconds) hc
  have hgb := hoistGroupby_typed (aliasWrap q) nodes
  have hcond : q.condition = none := by rw [hquery]
  have hgroup : q.groupby = [] := by rw [hquery]
  have horder : q.orderBy = [] := by rw [hquery]
  dsimp only
  split_ifs <;>
    simp [Query.expressions, hcond, hgroup, horder, List.all_eq_true, internalsAreCalls,
      allInternalsAreCalls_eq_all, hparamsT, hcT] <;>
    exact ⟨hparamsT, hgb⟩

/-- `convert_timeseries_to_query` over a typed leaf gives a typed plan. -/
theorem convertTimeseriesToQuery_typed {parsed : InitialParseResult} {dataset : Dataset}
    {P : Query} (h : convertTimeseriesToQuery parsed dataset = .ok P)
    (hp : typedNode parsed = true) : P.expressions.all internalsAreCalls = true := by
  unfold convertTimeseriesToQuery at h
  split at h
  · cases h
  next s hs =>
  split at h
  · cases h
  simp only [bind_eq_ok, pure_eq_ok, Except.ok.injEq] at h
  obtain ⟨c, hc, k, -, rfl⟩ := h
  have ht := (typedNode_iff.mp hp).1
  have hg : ∀ g ∈ parsed.groupby.getD [], g.expression.internalsAreCalls = true := fun g hg =>
    ht _ (List.mem_append_left _ (List.mem_append_right _ (List.mem_map_of_mem _ hg)))
  have hcT := combineAndConditions_typed (List.forall_mem_cons.mpr
    ⟨by simp [binaryCondition, internalsAreCalls, allInternalsAreCalls],
      fun d hd => ht d (List.mem_append_right _ hd)⟩) hc
  simp only [Query.expressions, List.map_cons, List.map_map, List.all_append, List.all_cons,
    typedNode_expression hp hs, Option.toList_some, hcT, List.map_nil, List.all_nil, Bool.and_true,
    Bool.true_and, Bool.and_self, List.all_eq_true, List.forall_mem_map]
  exact hg

/-- Every plan `parse_mql_query_body` compiles is typed: none of its curried
calls has an internal function that is not a call. -/
theorem parseMqlQueryBody_typed {body : String} {g : GrammarResult} {dataset : Dataset}
    {P : Query} (h : parseMqlQueryBody body g dataset = .ok P) :
    P.expressions.all internalsAreCalls = true := by
  cases g with
  | incomplete line column => simp [parseMqlQueryBody] at h
  | parseError message => simp [parseMqlQueryBody] at h
  | tree t =>
      simp only [parseMqlQueryBody] at h
      cases hv : visitMql t with
      | error e => simp [hv] at h
      | ok rv =>
          obtain ⟨r, v⟩ := rv
          simp only [hv, ok_bind] at h
          rcases r with parsed | x
          · dsimp only at h
            split_ifs at h
            · exact convertFormulaToQuery_typed h (visitMql_typed hv)
            · exact convertTimeseriesToQuery_typed h (visitMql_typed hv)
          · cases h

/-! ## The pipeline -/

/-- On every plan `parse_mql_query_body` compiles and every context,
`quantiles_to_quantile` after population never raises: it returns the
population of the plan rewritten as the spec states it, and a failed
population fails alike. -/
theorem parseMqlQueryBody_quantilesToQuantile {body : String} {g : GrammarResult}
    {dataset : Dataset} {P : Query} (h : parseMqlQueryBody body g dataset = .ok P)
    (services : Services) (ctx : MQLContext) :
    (populateQueryFromMqlContext services P ctx >>= fun r => quantilesToQuantile r.1) =
      (populateQueryFromMqlContext services (P.mapExpressions unwrapQuantiles) ctx).map
        Prod.fst := by
  rw [populateQueryFromMqlContext_rewrite unwrapQuantiles_rewritesCurriedOnly]
  rcases hpop : populateQueryFromMqlContext services P ctx with x | ⟨P', ctx'⟩
  · rfl
  rcases quantilesToQuantile_result P' with hq | ⟨hf, -⟩
  · rw [ok_bind, hq]
    rfl
  · rw [populateQueryFromMqlContext_typed hpop (parseMqlQueryBody_typed h)] at hf
    cases hf

theorem parseMqlQueryBody_quantilesToQuantile_productOfSums :
    ∃ P, parseMqlQueryBody "sum(d:transactions/a@none\x7benv:prod\x7d) by x * quantiles(0.5)(d:transactions/b@none) by x"
        (.tree productOfSums) ⟨"generic_metrics"⟩ = .ok P ∧
      (populateQueryFromMqlContext epochServices P minuteContext >>= fun r =>
          quantilesToQuantile r.1) =
        (populateQueryFromMqlContext epochServices (P.mapExpressions unwrapQuantiles)
          minuteContext).map Prod.fst := by
  obtain ⟨P, hP⟩ : ∃ P, parseMqlQueryBody "sum(d:transactions/a@none\x7benv:prod\x7d) by x * quantiles(0.5)(d:transactions/b@none) by x"
      (.tree productOfSums) ⟨"generic_metrics"⟩ = .ok P := ⟨_, rfl⟩
  exact ⟨P, hP, parseMqlQueryBody_quantilesToQuantile hP epochServices minuteContext⟩

end SnubaMql
