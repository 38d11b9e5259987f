import SnubaMql.Plans

/-! # The plan of a formula over aggregates

`convert_formula_to_query` rebuilds a formula in the select list with
`extract_expression`, hoists the leaves' group bys and conjoins their
conditions with `extract_filters`. The spec describes the select list with a
map `E`: an operator node is its operator's call over its operands, a number
its literal, and a leaf its aggregate with the alias removed and every column
qualified by the leaf's alias (`formulaExpression`).

On the trees the visitor builds from plain and curried aggregates
(`shapedList`), the code computes `E` (`extractExpressions_shaped`), keeps the
first-argument-is-a-column conditions of every leaf
(`extractFiltersList_shaped`), and so returns the plan the spec describes:
`convertFormulaToQuery_selected` for its select list and group by,
`convertFormulaToQuery_conditions_hold` for its condition when every
condition is a single comparison. The arbitrary-function leaves and combined
filters that fall outside these shapes are the divergences of `Plans`.
-/

namespace SnubaMql

/-! ## Expressions as the spec reads them -/

namespace Expression

mutual
/-- The expression with every column qualified by `t`. -/
def qualify (t : Option String) : Expression → Expression
  | .column a _ c => .column a t c
  | .literal a v => .literal a v
  | .functionCall a f ps => .functionCall a f (qualifyAll t ps)
  | .curriedFunctionCall a i ps => .curriedFunctionCall a (qualify t i) (qualifyAll t ps)
/-- Every expression of the list, qualified by `t`. -/
def qualifyAll (t : Option String) : List Expression → List Expression
  | [] => []
  | e :: es => qualify t e :: qualifyAll t es
end

/-- The expression without its own alias. -/
def unaliased : Expression → Expression
  | .column _ t c => .column none t c
  | .literal _ v => .literal none v
  | .functionCall _ f ps => .functionCall none f ps
  | .curriedFunctionCall _ i ps => .curriedFunctionCall none i ps

/-- A literal. -/
def isLiteral : Expression → Bool
  | .literal .. => true
  | _ => false

/-- A column. -/
def isColumn : Expression → Bool
  | .column .. => true
  | _ => false

/-- What `visit_aggregate` and `visit_curried_aggregate` select: a call, or a
curried call whose internal function takes literals, over one column. -/
def isAggregate : Expression → Bool
  | .functionCall _ _ [.column ..] => true
  | .curriedFunctionCall _ (.functionCall _ _ ps) [.column ..] => ps.all isLiteral
  | _ => false

/-- A call with arguments: every condition the visitor builds is one. -/
def isCall : Expression → Bool
  | .functionCall _ _ (_ :: _) => true
  | _ => false

/-- A comparison as `visit_filter_factor` builds it: a column against a
literal or a tuple of literals. -/
def isComparison : Expression → Bool
  | .functionCall _ _ [.column .., .literal ..] => true
  | .functionCall _ _ [.column .., .functionCall _ "tuple" vs] => vs.all isLiteral
  | _ => false

@[simp] theorem qualifyAll_eq_map (t : Option String) :
    ∀ es : List Expression, qualifyAll t es = es.map (qualify t)
  | [] => rfl
  | e :: es => by rw [qualifyAll, qualifyAll_eq_map t es, List.map_cons]

theorem qualify_literal {e : Expression} (h : e.isLiteral = true) (t : Option String) :
    e.qualify t = e := by
  cases e <;> first | rfl | cases h

theorem qualifyAll_literals {es : List Expression} (h : es.all isLiteral = true)
    (t : Option String) : es.map (qualify t) = es := by
  induction es with
  | nil => rfl
  | cons e es ih =>
      simp only [List.all_cons, Bool.and_eq_true] at h
      rw [List.map_cons, qualify_literal h.1, ih h.2]

theorem isComparison_isCall {c : Expression} (h : c.isComparison = true) : c.isCall = true := by
  unfold isComparison at h
  split at h <;> first | rfl | cases h

end Expression

/-- The selected column with its expression qualified by `t`. -/
def SelectedExpression.qualify (t : Option String) (g : SelectedExpression) :
    SelectedExpression :=
  ⟨g.name, g.expression.qualify t⟩

/-- The aggregates the visitor selects have the shape `extract_expression`
asserts. -/
theorem AggregateCall.selectedAggregate_isAggregate (call : AggregateCall) :
    call.selectedAggregate.isAggregate = true := by
  cases call with
  | aggregate => rfl
  | curriedAggregate _ params _ =>
      show (paramLiterals params).all Expression.isLiteral = true
      simp [paramLiterals, Expression.isLiteral]

/-- Every comparison `visit_filter_factor` builds is a single comparison. -/
theorem visitComparison_isComparison (negated : Bool) (tagKey : String)
    (rhs : String ⊕ List String) : (visitComparison negated tagKey rhs).isComparison = true := by
  rcases rhs with value | values
  · rfl
  · show (values.map (.literal none ∘ .str)).all Expression.isLiteral = true
    simp [Expression.isLiteral]

/-! ## The trees of plain and curried aggregates -/

/-- A leaf as the visitor builds it from a plain or curried aggregate: no
formula, the aggregate as its expression, conditions that are calls and a
group by of columns. -/
def InitialParseResult.isAggregateLeaf (L : InitialParseResult) : Bool :=
  L.formula.isNone && (L.expression.map (·.expression.isAggregate)).getD false &&
    (L.conditions.getD []).all Expression.isCall &&
    (L.groupby.getD []).all (·.expression.isColumn)

theorem InitialParseResult.isAggregateLeaf_spec {L : InitialParseResult}
    (h : L.isAggregateLeaf = true) :
    L.formula = none ∧ (∃ e, L.expression = some e ∧ e.expression.isAggregate = true) ∧
      (L.conditions.getD []).all Expression.isCall = true ∧
      (L.groupby.getD []).all (·.expression.isColumn) = true := by
  simp only [isAggregateLeaf, Bool.and_eq_true] at h
  obtain ⟨⟨⟨hf, he⟩, hc⟩, hg⟩ := h
  refine ⟨Option.isNone_iff_eq_none.mp hf, ?_, hc, hg⟩
  cases hL : L.expression with
  | none => rw [hL] at he; cases he
  | some e => rw [hL] at he; exact ⟨e, rfl, he⟩

mutual
/-- A formula tree whose leaves are aggregate leaves and whose operators are
named. -/
def shapedNode : InitialParseResult → Bool
  | r@⟨some _, _, _, _, _, _, _⟩ => r.isAggregateLeaf
  | ⟨none, some f, some ps, _, _, _, _⟩ => f != "" && shapedList ps
  | _ => false
/-- A parameter of such a tree: a number, or such a node. -/
def shapedParam : FormulaParameter → Bool
  | .inl r => shapedNode r
  | .inr _ => true
/-- Parameters of such a tree. -/
def shapedList : List FormulaParameter → Bool
  | [] => true
  | p :: ps => shapedParam p && shapedList ps
end

theorem shapedNode_of_expression {r : InitialParseResult} {e : SelectedExpression}
    (he : r.expression = some e) : shapedNode r = r.isAggregateLeaf := by
  obtain ⟨_, f, ps, g, cs, m, a⟩ := r
  cases he
  rfl

/-! ## The spec's `E` -/

mutual
/-- `E` on a node: a leaf's aggregate without its alias and with every column
qualified by the leaf's alias, or the call of a formula's operator over its
operands. -/
def formulaExpressionNode (wrap : Option String → Option String) :
    InitialParseResult → Expression
  | ⟨some e, _, _, _, _, _, a⟩ => (e.expression.qualify (wrap a)).unaliased
  | ⟨none, f, ps, _, _, _, _⟩ =>
      .functionCall none (f.getD "") (match ps with
        | none => []
        | some ps => formulaExpressionList wrap ps)
/-- `E` on a parameter: a number is its literal. -/
def formulaExpression (wrap : Option String → Option String) : FormulaParameter → Expression
  | .inl r => formulaExpressionNode wrap r
  | .inr x => .literal none (.num x)
/-- `E` on each parameter of a list. -/
def formulaExpressionList (wrap : Option String → Option String) :
    List FormulaParameter → List Expression
  | [] => []
  | p :: ps => formulaExpression wrap p :: formulaExpressionList wrap ps
end

@[simp] theorem formulaExpressionList_eq_map (wrap : Option String → Option String) :
    ∀ ps : List FormulaParameter, formulaExpressionList wrap ps = ps.map (formulaExpression wrap)
  | [] => rfl
  | p :: ps => by rw [formulaExpressionList, formulaExpressionList_eq_map wrap ps, List.map_cons]

section Extract

variable (wrap : Option String → Option String)

/-- `extract_expression` on an aggregate leaf gives what `E` gives. -/
theorem extractLeafExpression_aggregate {e : Expression} (h : e.isAggregate = true)
    (t : Option String) : extractLeafExpression wrap e t = .ok ((e.qualify (wrap t)).unaliased) := by
  unfold Expression.isAggregate at h
  split at h
  · rfl
  · next ps =>
      simp [extractLeafExpression, Expression.qualify, Expression.unaliased,
        Expression.qualifyAll_literals h]
  · cases h

theorem shapedNode_leaf {r : InitialParseResult} {e : SelectedExpression}
    (he : r.expression = some e) (h : shapedNode r = true) :
    r.formula = none ∧ e.expression.isAggregate = true ∧
      (r.conditions.getD []).all Expression.isCall = true ∧
      (r.groupby.getD []).all (·.expression.isColumn) = true := by
  rw [shapedNode_of_expression he] at h
  obtain ⟨hf, ⟨e', he', hagg⟩, hc, hg⟩ := InitialParseResult.isAggregateLeaf_spec h
  cases he.symm.trans he'
  exact ⟨hf, hagg, hc, hg⟩

/-- On a tree of aggregates, `extract_expression` computes `E`. -/
theorem extractExpressions_shaped (ps : List FormulaParameter) (h : shapedList ps = true) :
    extractExpressions wrap ps = .ok (ps.map (formulaExpression wrap)) := by
  rw [← formulaExpressionList_eq_map]
  refine extractExpressions.induct wrap
    (fun r => shapedNode r = true → extractExpressionNode wrap r = .ok (formulaExpressionNode wrap r))
    (fun ps => shapedList ps = true →
      extractExpressions wrap ps = .ok (formulaExpressionList wrap ps))
    (fun p => shapedParam p = true → extractExpression wrap p = .ok (formulaExpression wrap p))
    ?leaf ?emptyName ?noParameters ?formula ?neither ?nil ?cons ?node ?number ps h
  case leaf =>
    intro e f ps g cs m a h
    obtain ⟨-, hagg, -⟩ := shapedNode_leaf rfl h
    exact extractLeafExpression_aggregate wrap hagg a
  case emptyName => intro ps g cs m a h; cases ps <;> simp [shapedNode] at h
  case noParameters => intro f g cs m a _ h; simp [shapedNode] at h
  case formula =>
    intro f g cs m a hf ps ih h
    simp only [shapedNode, Bool.and_eq_true] at h
    simp [extractExpressionNode, formulaExpressionNode, hf, ih h.2]
  case neither => intro ps g cs m a h; cases ps <;> simp [shapedNode] at h
  case nil => intro _; rfl
  case cons =>
    intro p ps ihp ihps h
    simp only [shapedList, Bool.and_eq_true] at h
    simp [extractExpressions, formulaExpressionList, ihp h.1, ihps h.2]
  case node => intro r ih h; exact ih h
  case number => intro x _; rfl

end Extract

/-! ## What `extract_filters` keeps -/

section Filters

variable (wrap : Option String → Option String)

/-- What `extract_filters` keeps of one condition of a leaf with alias `t`:
the condition with its first argument qualified when that is a column, and
nothing otherwise. -/
def keptCondition (t : Option String) (c : Expression) : Option Expression :=
  match qualifyCondition wrap t c with
  | .ok kept => kept
  | .error _ => none

/-- The conditions `extract_filters` gives for one leaf: its kept conditions,
then its `metric_id` condition. -/
def leafFilters (L : InitialParseResult) : List Expression :=
  (L.conditions.getD []).filterMap (keptCondition wrap L.tableAlias) ++
    [metricIdCondition wrap L.tableAlias L.mri]

theorem qualifyCondition_call {c : Expression} (h : c.isCall = true) (t : Option String) :
    qualifyCondition wrap t c = .ok (keptCondition wrap t c) := by
  rcases c with _ | _ | ⟨a, f, _ | ⟨p, ps⟩⟩ | _ <;> simp [Expression.isCall] at h
  cases p <;> rfl

/-- A single comparison is kept with its column qualified, which is the
comparison with every column qualified. -/
theorem keptCondition_comparison {c : Expression} (h : c.isComparison = true)
    (t : Option String) : keptCondition wrap t c = some (c.qualify (wrap t)) := by
  unfold Expression.isComparison at h
  split at h
  · rfl
  · simp [keptCondition, qualifyCondition, Expression.qualify, Expression.qualifyAll_literals h]
  · cases h

theorem filterMapM_loop_ok {α β : Type} (f : α → Except PyException (Option β))
    (g : α → Option β) :
    ∀ (as : List α) (bs : List β), (∀ a ∈ as, f a = .ok (g a)) →
      List.filterMapM.loop f as bs = .ok (bs.reverse ++ as.filterMap g)
  | [], bs, _ => by simp [List.filterMapM.loop]
  | a :: as, bs, h => by
      have ih := filterMapM_loop_ok f g as
      rw [List.filterMapM.loop, h a (List.mem_cons_self a as), ok_bind]
      have has : ∀ x ∈ as, f x = .ok (g x) := fun x hx => h x (List.mem_cons_of_mem a hx)
      cases hg : g a with
      | none => simp [ih bs has, List.filterMap_cons, hg]
      | some b => simp [ih (b :: bs) has, List.filterMap_cons, hg]

theorem filterMapM_qualifyCondition {cs : List Expression} (h : cs.all Expression.isCall = true)
    (t : Option String) :
    cs.filterMapM (qualifyCondition wrap t) = .ok (cs.filterMap (keptCondition wrap t)) := by
  rw [List.all_eq_true] at h
  simpa using filterMapM_loop_ok (qualifyCondition wrap t) (keptCondition wrap t) cs []
    fun c hc => qualifyCondition_call wrap (h c hc) t

/-- On a tree of aggregates, `extract_filters` gives the filters of every
leaf, in the order of the leaves. -/
theorem extractFiltersList_shaped (ps : List FormulaParameter) (h : shapedList ps = true) :
    extractFiltersList wrap ps = .ok ((findAllLeafNodesList ps).flatMap (leafFilters wrap)) := by
  refine extractFiltersList.induct wrap
    (fun r => shapedNode r = true →
      extractFiltersNode wrap r = .ok ((findAllLeafNodesNode r).flatMap (leafFilters wrap)))
    (fun ps => shapedList ps = true →
      extractFiltersList wrap ps = .ok ((findAllLeafNodesList ps).flatMap (leafFilters wrap)))
    (fun p => shapedParam p = true →
      extractFilters wrap p = .ok (((findAllLeafNodes p).getD []).flatMap (leafFilters wrap)))
    ?leaf ?emptyName ?noParameters ?formula ?neither ?nil ?cons ?node ?number ps h
  case leaf =>
    intro e f ps g cs m a h
    obtain ⟨hf, -, hcs, -⟩ := shapedNode_leaf rfl h
    rw [findAllLeafNodesNode_leaf hf, List.flatMap_singleton]
    simp [extractFiltersNode, filterMapM_qualifyCondition wrap hcs, leafFilters]
  case emptyName => intro ps g cs m a h; cases ps <;> simp [shapedNode] at h
  case noParameters => intro f g cs m a _ h; simp [shapedNode] at h
  case formula =>
    intro f g cs m a hf ps ih h
    simp only [shapedNode, Bool.and_eq_true] at h
    simp [extractFiltersNode, findAllLeafNodesNode, hf, ih h.2]
  case neither => intro ps g cs m a h; cases ps <;> simp [shapedNode] at h
  case nil => intro _; rfl
  case cons =>
    intro p ps ihp ihps h
    simp only [shapedList, Bool.and_eq_true] at h
    simp [extractFiltersList, findAllLeafNodesList, ihp h.1, ihps h.2]
  case node => intro r ih h; exact ih h
  case number => intro x _; rfl

end Filters

/-- The leaves of a tree of aggregates are aggregate leaves. -/
theorem findAllLeafNodesList_shaped (ps : List FormulaParameter) (h : shapedList ps = true) :
    ∀ L ∈ findAllLeafNodesList ps, L.isAggregateLeaf = true := by
  refine findAllLeafNodesList.induct
    (fun r => shapedNode r = true → ∀ L ∈ findAllLeafNodesNode r, L.isAggregateLeaf = true)
    (fun ps => shapedList ps = true → ∀ L ∈ findAllLeafNodesList ps, L.isAggregateLeaf = true)
    (fun p => shapedParam p = true → ∀ L ∈ (findAllLeafNodes p).getD [], L.isAggregateLeaf = true)
    ?leaf ?noParameters ?formula ?nil ?cons ?node ?number ps h
  case leaf =>
    intro e ps g cs m a h L hL
    rw [findAllLeafNodesNode_leaf rfl, List.mem_singleton] at hL
    subst hL
    cases e with
    | none => cases ps <;> simp [shapedNode] at h
    | some e => simpa [shapedNode] using h
  case noParameters => intro e f g cs m a _ L hL; simp [findAllLeafNodesNode] at hL
  case formula =>
    intro e f ps g cs m a ih h
    cases e with
    | none =>
        simp only [shapedNode, Bool.and_eq_true] at h
        simpa [findAllLeafNodesNode] using ih h.2
    | some e => simp [shapedNode, InitialParseResult.isAggregateLeaf] at h
  case nil => intro _ L hL; cases hL
  case cons =>
    intro p ps ihp ihps h L hL
    simp only [shapedList, Bool.and_eq_true] at h
    simp only [findAllLeafNodesList, List.mem_append] at hL
    exact hL.elim (ihp h.1 L) (ihps h.2 L)
  case node => intro r ih h; exact ih h
  case number => intro x _ L hL; cases hL

/-! ## The plan -/

theorem mapM_ok_forall {α β : Type} {f : α → Except PyException β} :
    ∀ {as : List α} {bs : List β}, as.mapM f = .ok bs → ∀ a ∈ as, ∃ b, f a = .ok b
  | [], _, _, a, ha => absurd ha (List.not_mem_nil a)
  | a :: as, bs, h, x, hx => by
      rw [List.mapM_cons] at h
      simp only [bind_eq_ok, pure_eq_ok] at h
      obtain ⟨b, hb, bs', hbs', -⟩ := h
      rcases List.mem_cons.mp hx with rfl | hx
      · exact ⟨b, hb⟩
      · exact mapM_ok_forall hbs' x hx

/-- What `build_formula_query_from_clause` returns when it succeeds: the
formula's leaves, which share one group by and each have an MRI, and a plan
that has nothing but its from clause. -/
theorem buildFormulaQueryFromClause_ok {parsed : InitialParseResult} {dataset : Dataset}
    {query : Query} {nodes : List InitialParseResult}
    (h : buildFormulaQueryFromClause parsed dataset = .ok (query, nodes)) :
    findAllLeafNodesNode parsed = nodes ∧ nodes ≠ [] ∧
      (∃ G, ∀ L ∈ nodes, L.groupby = G) ∧ (∀ L ∈ nodes, ∃ m, L.mri = some m) ∧
      query = { fromClause := query.fromClause } := by
  unfold buildFormulaQueryFromClause at h
  split at h
  · cases h
  · cases h
  · next first rest hleaves =>
      split_ifs at h with hall
      simp only [bind_eq_ok] at h
      obtain ⟨keys, hkeys, h⟩ := h
      have hq : query = { fromClause := query.fromClause } ∧ nodes = first :: rest := by
        split at h
        · cases h; exact ⟨rfl, rfl⟩
        · simp only [bind_eq_ok, pure_eq_ok, Except.ok.injEq, Prod.mk.injEq] at h
          obtain ⟨_, -, _, -, rfl, rfl⟩ := h
          exact ⟨rfl, rfl⟩
      obtain ⟨hq, rfl⟩ := hq
      refine ⟨Option.some.inj hleaves, List.cons_ne_nil _ _,
        ⟨first.groupby, (all_groupby_eq_iff first _).mp hall⟩, fun L hL => ?_, hq⟩
      obtain ⟨k, hk⟩ := mapM_ok_forall hkeys L hL
      have hne := selectEntity_ne_empty hk
      cases hm : L.mri with
      | none => simp [hm] at hne
      | some m => exact ⟨m, rfl⟩

theorem hoistGroupby_columns (wrap : Option String → Option String) :
    ∀ nodes : List InitialParseResult,
      (∀ L ∈ nodes, (L.groupby.getD []).all (·.expression.isColumn) = true) →
      hoistGroupby wrap nodes =
        nodes.flatMap fun L => (L.groupby.getD []).map (·.qualify (wrap L.tableAlias))
  | [], _ => rfl
  | L :: nodes, h => by
      have hrest := hoistGroupby_columns wrap nodes fun L' hL' => h L' (List.mem_cons_of_mem L hL')
      unfold hoistGroupby at hrest ⊢
      rw [List.flatMap_cons, List.flatMap_cons, hrest]
      congr 1
      have hL := h L (List.mem_cons_self L nodes)
      generalize L.groupby.getD [] = gs at hL ⊢
      induction gs with
      | nil => rfl
      | cons g gs ih =>
          simp only [List.all_cons, Bool.and_eq_true] at hL
          obtain ⟨n, e⟩ := g
          cases e with
          | column a t c => rw [List.filterMap_cons, List.map_cons, ← ih hL.2]; rfl
          | _ => cases hL.1

/-- `convert_formula_to_query` once its parts have succeeded. -/
theorem convertFormulaToQuery_of_ok {parsed : InitialParseResult} {dataset : Dataset}
    {f : String} {query : Query} {nodes : List InitialParseResult}
    {params conditions : List Expression} {c : Expression}
    (hf : parsed.formula = some f)
    (hbuild : buildFormulaQueryFromClause parsed dataset = .ok (query, nodes))
    (hparams : extractExpressions (aliasWrap query) (parsed.parameters.getD []) = .ok params)
    (hconds : extractFiltersList (aliasWrap query) (parsed.parameters.getD []) = .ok conditions)
    (hc : combineAndConditions conditions = .ok c) :
    ∃ q, convertFormulaToQuery parsed dataset = .ok q ∧ q.fromClause = query.fromClause ∧
      q.selectedColumns = ⟨some aggregateAlias, .functionCall (some aggregateAlias) f params⟩ ::
        hoistGroupby (aliasWrap query) nodes ∧
      q.groupby = (hoistGroupby (aliasWrap query) nodes).map (·.expression) ∧
      q.condition = some c := by
  obtain ⟨-, -, -, -, hquery⟩ := buildFormulaQueryFromClause_ok hbuild
  unfold convertFormulaToQuery
  rw [hf]
  dsimp only
  rw [hbuild, ok_bind]
  dsimp only
  rw [hparams, ok_bind, hconds, ok_bind, hc, ok_bind]
  refine ⟨_, rfl, ?_⟩
  rw [hquery]
  split_ifs with hh <;> simp [Query.addConditionToAst, hh]

/-- The leaves `build_formula_query_from_clause` returns are those of the
formula's parameters. -/
theorem buildFormulaQueryFromClause_leaves {parsed : InitialParseResult} {dataset : Dataset}
    {f : String} {query : Query} {nodes : List InitialParseResult}
    (hf : parsed.formula = some f)
    (h : buildFormulaQueryFromClause parsed dataset = .ok (query, nodes)) :
    nodes = findAllLeafNodesList (parsed.parameters.getD []) := by
  obtain ⟨hleaves, hne, -⟩ := buildFormulaQueryFromClause_ok h
  obtain ⟨e, _, _ | ps, g, cs, m, a⟩ := parsed <;> cases hf
  · exact absurd hleaves.symm hne
  · exact hleaves.symm

/-- `convert_formula_to_query` on a tree of aggregates that
`build_formula_query_from_clause` accepts: it returns a plan selecting `E`
of the formula and the common group by of the leaves, qualified by each
leaf's alias, with the conjunction of the leaves' filters as its condition. -/
theorem convertFormulaToQuery_shaped {parsed : InitialParseResult} {dataset : Dataset}
    {f : String} {query : Query} {nodes : List InitialParseResult}
    (hf : parsed.formula = some f) (hshape : shapedList (parsed.parameters.getD []) = true)
    (hbuild : buildFormulaQueryFromClause parsed dataset = .ok (query, nodes)) :
    ∃ q c G, convertFormulaToQuery parsed dataset = .ok q ∧ q.fromClause = query.fromClause ∧
      (∀ L ∈ nodes, L.groupby.getD [] = G) ∧
      q.selectedColumns = ⟨some aggregateAlias, .functionCall (some aggregateAlias) f
          ((parsed.parameters.getD []).map (formulaExpression (aliasWrap query)))⟩ ::
        nodes.flatMap (fun L => G.map (·.qualify (aliasWrap query L.tableAlias))) ∧
      q.groupby =
        nodes.flatMap (fun L => G.map (·.expression.qualify (aliasWrap query L.tableAlias))) ∧
      q.condition = some c ∧
      combineAndConditions (nodes.flatMap (leafFilters (aliasWrap query))) = .ok c := by
  have hnodes := buildFormulaQueryFromClause_leaves hf hbuild
  obtain ⟨-, hne, ⟨G, hG⟩, -⟩ := buildFormulaQueryFromClause_ok hbuild
  have hcs : nodes.flatMap (leafFilters (aliasWrap query)) ≠ [] := by
    obtain ⟨L, rest, rfl⟩ := List.exists_cons_of_ne_nil hne
    simp [leafFilters]
  obtain ⟨x, xs, hx⟩ := List.exists_cons_of_ne_nil hcs
  obtain ⟨c, hc⟩ := combineAndConditions_ok x xs
  rw [← hx] at hc
  obtain ⟨q, hq, hfrom, hsel, hgb, hcond⟩ := convertFormulaToQuery_of_ok hf hbuild
    (extractExpressions_shaped _ _ hshape)
    (by rw [extractFiltersList_shaped _ _ hshape, ← hnodes]) hc
  have hagg := findAllLeafNodesList_shaped _ hshape
  rw [← hnodes] at hagg
  have hhoist : hoistGroupby (aliasWrap query) nodes =
      nodes.flatMap (fun L => (G.getD []).map (·.qualify (aliasWrap query L.tableAlias))) := by
    rw [hoistGroupby_columns _ nodes fun L hL =>
      (InitialParseResult.isAggregateLeaf_spec (hagg L hL)).2.2.2]
    exact List.flatMap_congr fun L hL => by rw [hG L hL]
  refine ⟨q, c, G.getD [], hq, hfrom, fun L hL => by rw [hG L hL], by rw [hsel, hhoist], ?_,
    hcond, hc⟩
  rw [hgb, hhoist]
  simp [List.map_flatMap, SelectedExpression.qualify, Function.comp_def]

/-- For a formula over plain and curried aggregates that
`build_formula_query_from_clause` accepts, `convert_formula_to_query` returns
a plan over the same from clause whose select list is `aggregate_value :=
E(F)` followed by the leaves' common group by qualified by each leaf's alias
in turn, and whose group by is that list of columns. A plan over one entity
qualifies nothing. -/
theorem convertFormulaToQuery_selected {parsed : InitialParseResult} {dataset : Dataset}
    {f : String} {query : Query} {nodes : List InitialParseResult}
    (hf : parsed.formula = some f) (hshape : shapedList (parsed.parameters.getD []) = true)
    (hbuild : buildFormulaQueryFromClause parsed dataset = .ok (query, nodes)) :
    ∃ q G, convertFormulaToQuery parsed dataset = .ok q ∧ q.fromClause = query.fromClause ∧
      (∀ L ∈ nodes, L.groupby.getD [] = G) ∧
      q.selectedColumns = ⟨some aggregateAlias, .functionCall (some aggregateAlias) f
          ((parsed.parameters.getD []).map (formulaExpression (aliasWrap query)))⟩ ::
        nodes.flatMap (fun L => G.map (·.qualify (aliasWrap query L.tableAlias))) ∧
      q.groupby =
        nodes.flatMap (fun L => G.map (·.expression.qualify (aliasWrap query L.tableAlias))) := by
  obtain ⟨q, -, G, hq, hfrom, hG, hsel, hgb, -⟩ := convertFormulaToQuery_shaped hf hshape hbuild
  exact ⟨q, G, hq, hfrom, hG, hsel, hgb⟩

/-- `sum(d:transactions/a@none{env:prod}) by x * quantiles(0.5)(d:transactions/b@none) by x`. -/
def productOfSums : MqlExpression :=
  .expression (.term
      (.unary false (.filter (.filter (.function ⟨.aggregate (.aggregate "sum"
        ⟨.unquotedMri "d:transactions/a@none", some (some (.filterExpr (.filterTerm
          (.comparison false "env" (.string (.unquoted "prod"))) []) [])), none⟩),
        some (.name "x")⟩) none none)))
      [(.mul, .unary false (.filter (.filter (.function ⟨.aggregate (.curriedAggregate "quantiles"
        [.number (1 / 2)] ⟨.unquotedMri "d:transactions/b@none", none, none⟩), some (.name "x")⟩) none none)))])
    []

theorem convertFormulaToQuery_selected_productOfSums :
    ∃ parsed v query nodes, visitMql productOfSums = .ok (.inl parsed, v) ∧
      buildFormulaQueryFromClause parsed ⟨"generic_metrics"⟩ = .ok (query, nodes) ∧
      parsed.formula = some "multiply" ∧ shapedList (parsed.parameters.getD []) = true ∧
      ∃ q G, convertFormulaToQuery parsed ⟨"generic_metrics"⟩ = .ok q ∧
        q.fromClause = query.fromClause ∧ (∀ L ∈ nodes, L.groupby.getD [] = G) ∧
        q.selectedColumns = ⟨some aggregateAlias, .functionCall (some aggregateAlias) "multiply"
            ((parsed.parameters.getD []).map (formulaExpression (aliasWrap query)))⟩ ::
          nodes.flatMap (fun L => G.map (·.qualify (aliasWrap query L.tableAlias))) ∧
        q.groupby =
          nodes.flatMap (fun L => G.map (·.expression.qualify (aliasWrap query L.tableAlias))) :=
  ⟨_, _, _, _, rfl, rfl, rfl, rfl, convertFormulaToQuery_selected (by rfl) (by rfl) (by rfl)⟩

theorem all_congr_mem {α : Type} {l : List α} {p q : α → Bool} (h : ∀ a ∈ l, p a = q a) :
    l.all p = l.all q := by
  simp only [List.all_eq]
  exact decide_eq_decide.mpr (forall₂_congr fun a ha => by rw [h a ha])

theorem holdsAll_flatMap {α : Type} (row : Row) (f : α → List Expression) :
    ∀ l : List α, Expression.holdsAll row (l.flatMap f) = l.all fun a => Expression.holdsAll row (f a)
  | [] => rfl
  | a :: l => by rw [List.flatMap_cons, Expression.holdsAll_append, holdsAll_flatMap row f l,
      List.all_cons]

theorem filterMap_keptCondition (wrap : Option String → Option String) (t : Option String) :
    ∀ cs : List Expression, cs.all Expression.isComparison = true →
      cs.filterMap (keptCondition wrap t) = cs.map (·.qualify (wrap t))
  | [], _ => rfl
  | c :: cs, h => by
      simp only [List.all_cons, Bool.and_eq_true] at h
      rw [List.filterMap_cons, keptCondition_comparison wrap h.1, filterMap_keptCondition wrap t cs h.2,
        List.map_cons]

/-- The filters of a leaf with an MRI and single comparisons hold where its
`metric_id` is its MRI and each comparison, qualified, holds. -/
theorem leafFilters_holds (wrap : Option String → Option String) (row : Row)
    {L : InitialParseResult} {m : String} (hm : L.mri = some m)
    (hcmp : (L.conditions.getD []).all Expression.isComparison = true) :
    Expression.holdsAll row (leafFilters wrap L) =
      ((row (wrap L.tableAlias) "metric_id" == .str m) &&
        Expression.holdsAll row ((L.conditions.getD []).map (·.qualify (wrap L.tableAlias)))) := by
  rw [leafFilters, filterMap_keptCondition wrap _ _ hcmp, Expression.holdsAll_append]
  simp [metricIdCondition, hm, binaryCondition, Bool.and_comm]

/-- For a formula over aggregates whose leaves' conditions are single
comparisons, the plan's condition holds in exactly the rows where, for every
leaf, `metric_id` is the leaf's MRI and every condition of the leaf holds,
each column qualified by the leaf's alias when the plan is a join. -/
theorem convertFormulaToQuery_conditions_hold {parsed : InitialParseResult} {dataset : Dataset}
    {f : String} {query : Query} {nodes : List InitialParseResult}
    (hf : parsed.formula = some f) (hshape : shapedList (parsed.parameters.getD []) = true)
    (hbuild : buildFormulaQueryFromClause parsed dataset = .ok (query, nodes))
    (hcmp : ∀ L ∈ nodes, (L.conditions.getD []).all Expression.isComparison = true) :
    ∃ q c, convertFormulaToQuery parsed dataset = .ok q ∧ q.condition = some c ∧
      (∀ L ∈ nodes, ∃ m, L.mri = some m) ∧
      ∀ row, c.holds row = nodes.all fun L =>
        (row (aliasWrap query L.tableAlias) "metric_id" == .str (L.mri.getD "")) &&
          Expression.holdsAll row
            ((L.conditions.getD []).map (·.qualify (aliasWrap query L.tableAlias))) := by
  obtain ⟨q, c, -, hq, -, -, -, -, hcond, hc⟩ := convertFormulaToQuery_shaped hf hshape hbuild
  obtain ⟨-, -, -, hmri, -⟩ := buildFormulaQueryFromClause_ok hbuild
  refine ⟨q, c, hq, hcond, hmri, fun row => ?_⟩
  rw [combineAndConditions_holds row _ c hc, holdsAll_flatMap]
  refine all_congr_mem fun L hL => ?_
  obtain ⟨m, hm⟩ := hmri L hL
  rw [leafFilters_holds _ row hm (hcmp L hL), hm, Option.getD_some]

theorem convertFormulaToQuery_conditions_hold_productOfSums :
    ∃ parsed v query nodes, visitMql productOfSums = .ok (.inl parsed, v) ∧
      buildFormulaQueryFromClause parsed ⟨"generic_metrics"⟩ = .ok (query, nodes) ∧
      parsed.formula = some "multiply" ∧ shapedList (parsed.parameters.getD []) = true ∧
      (∀ L ∈ nodes, (L.conditions.getD []).all Expression.isComparison = true) ∧
      ∃ q c, convertFormulaToQuery parsed ⟨"generic_metrics"⟩ = .ok q ∧ q.condition = some c ∧
        (∀ L ∈ nodes, ∃ m, L.mri = some m) ∧
        ∀ row, c.holds row = nodes.all fun L =>
          (row (aliasWrap query L.tableAlias) "metric_id" == .str (L.mri.getD "")) &&
            Expression.holdsAll row
              ((L.conditions.getD []).map (·.qualify (aliasWrap query L.tableAlias))) :=
  ⟨_, _, _, _, rfl, rfl, rfl, rfl, by decide,
    convertFormulaToQuery_conditions_hold (by rfl) (by rfl) (by rfl) (by decide)⟩

end SnubaMql
