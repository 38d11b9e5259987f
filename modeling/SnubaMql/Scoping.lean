import SnubaMql.Formula

/-! # Where filter and group by clauses land

`visit_filter` applies a clause to exactly the leaves of the target it
follows, appending it to what they carry: to the target itself when it is a
leaf, to every leaf below it when it is a formula (`applyFilterClause_leaves`).
`visit_inner_filter` and `visit_function` assign instead. The inner filter
assigns to a fresh metric, which carries nothing yet, but a group by after a
function call replaces the one written inside its parentheses
(`visitFunction_groupby`).
-/

namespace SnubaMql

namespace InitialParseResult

@[simp] theorem attach_expression (r : InitialParseResult) (c : Option Expression)
    (g : List SelectedExpression) : (r.attach c g).expression = r.expression := rfl

@[simp] theorem attach_parameters (r : InitialParseResult) (c : Option Expression)
    (g : List SelectedExpression) : (r.attach c g).parameters = r.parameters := rfl

@[simp] theorem attach_formula (r : InitialParseResult) (c : Option Expression)
    (g : List SelectedExpression) : (r.attach c g).formula = r.formula := rfl

@[simp] theorem attach_tableAlias (r : InitialParseResult) (c : Option Expression)
    (g : List SelectedExpression) : (r.attach c g).tableAlias = r.tableAlias := rfl

@[simp] theorem attach_mri (r : InitialParseResult) (c : Option Expression)
    (g : List SelectedExpression) : (r.attach c g).mri = r.mri := rfl

@[simp] theorem attach_conditions (r : InitialParseResult) (c : Option Expression)
    (g : List SelectedExpression) :
    (r.attach c g).conditions.getD [] = r.conditions.getD [] ++ c.toList := by
  cases c <;> simp [attach]

@[simp] theorem attach_groupby (r : InitialParseResult) (c : Option Expression)
    (g : List SelectedExpression) :
    (r.attach c g).groupby.getD [] = r.groupby.getD [] ++ g := by
  by_cases hg : g = [] <;> simp [attach, hg]

/-- An empty clause changes nothing. -/
@[simp] theorem attach_none_nil (r : InitialParseResult) : r.attach none [] = r := by
  cases r
  simp [attach]

end InitialParseResult

theorem findAllLeafNodesNode_leaf {r : InitialParseResult} (h : r.formula = none) :
    findAllLeafNodesNode r = [r] := by
  obtain ⟨_, _ | _, _, _, _, _, _⟩ := r
  · rfl
  · cases h

/-- What `pushdown_values` does to a parameter that is a node. -/
theorem pushdownValues_inl_ok {c : Option Expression} {g : List SelectedExpression}
    {r : InitialParseResult} {p' : FormulaParameter} (h : pushdownValues c g (.inl r) = .ok p') :
    ∃ r', pushdownNode c g r = .ok r' ∧ p' = .inl r' := by
  simp only [pushdownValues, Functor.map, Except.map] at h
  split at h
  · cases h
  · next r' hr => exact ⟨r', hr, (Except.ok.inj h).symm⟩

/-- What `pushdown_values` does to a parameter list that is not empty. -/
theorem pushdownList_cons_ok {c : Option Expression} {g : List SelectedExpression}
    {p : FormulaParameter} {ps qs : List FormulaParameter} (h : pushdownList c g (p :: ps) = .ok qs) :
    ∃ p' ps', pushdownValues c g p = .ok p' ∧ pushdownList c g ps = .ok ps' ∧ qs = p' :: ps' := by
  simp only [pushdownList, bind_eq_ok, pure_eq_ok, Except.ok.injEq] at h
  obtain ⟨p', hp, ps', hps, rfl⟩ := h
  exact ⟨p', ps', hp, hps, rfl⟩

/-- `pushdown_values` over a parameter list appends the clause to every leaf
below it, and to nothing else. -/
theorem pushdownList_leaves (c : Option Expression) (g : List SelectedExpression)
    (ps : List FormulaParameter) :
    ∀ ps', pushdownList c g ps = .ok ps' →
      findAllLeafNodesList ps' = (findAllLeafNodesList ps).map (·.attach c g) := by
  refine pushdownList.induct c g
    (fun r => ∀ r', pushdownNode c g r = .ok r' →
      findAllLeafNodesNode r' = (findAllLeafNodesNode r).map (·.attach c g))
    (fun ps => ∀ ps', pushdownList c g ps = .ok ps' →
      findAllLeafNodesList ps' = (findAllLeafNodesList ps).map (·.attach c g))
    (fun p => ∀ p', pushdownValues c g p = .ok p' →
      (findAllLeafNodes p').getD [] = ((findAllLeafNodes p).getD []).map (·.attach c g))
    ?formulaWithoutParameters ?formula ?leaf ?empty ?nil ?cons ?node ?number ps
  case formulaWithoutParameters =>
    intro e f gs cs m a r' h
    simp only [pushdownNode.eq_1, pure_eq_ok, Except.ok.injEq] at h
    subst h
    rfl
  case formula =>
    intro e f ps gs cs m a ih r' h
    simp only [pushdownNode.eq_2, bind_eq_ok, pure_eq_ok, Except.ok.injEq] at h
    obtain ⟨ps', hps, rfl⟩ := h
    exact ih ps' hps
  case leaf =>
    intro e ps gs cs m a r' h
    simp only [pushdownNode.eq_3, pure_eq_ok, Except.ok.injEq] at h
    subst h
    rw [findAllLeafNodesNode_leaf rfl, findAllLeafNodesNode_leaf rfl]
    rfl
  case empty => intro ps gs cs m a r' h; simp [pushdownNode.eq_4] at h
  case nil => intro ps' h; cases h; rfl
  case cons =>
    intro p ps ihp ihps qs h
    obtain ⟨p', ps', hp, hps, rfl⟩ := pushdownList_cons_ok h
    simp [findAllLeafNodesList, ihp p' hp, ihps ps' hps]
  case node =>
    intro r ih p' h
    obtain ⟨r', hr, rfl⟩ := pushdownValues_inl_ok h
    exact ih r' hr
  case number => intro x p' h; cases h; rfl

/-- The body of `visit_filter` appends its condition and group by to exactly
the leaves of its target. -/
theorem applyFilterClause_leaves {target r : InitialParseResult} {c : Option Expression}
    {g : List SelectedExpression} (h : applyFilterClause target c g = .ok r) :
    findAllLeafNodesNode r = (findAllLeafNodesNode target).map (·.attach c g) := by
  unfold applyFilterClause at h
  split_ifs at h with hclause hformula
  · obtain ⟨e, _ | f, ps, gs, cs, m, a⟩ := target
    · cases hformula
    rcases ps with _ | ps
    · cases h; rfl
    simp only [bind_eq_ok, pure_eq_ok, Except.ok.injEq] at h
    obtain ⟨ps', hps, rfl⟩ := h
    exact pushdownList_leaves c g ps ps' hps
  · cases h
    have hf : target.formula = none := by simpa using hformula
    rw [findAllLeafNodesNode_leaf (by simpa using hf), findAllLeafNodesNode_leaf hf]
    rfl
  · cases h
    obtain ⟨rfl, rfl⟩ : c = none ∧ g = [] := by simpa using hclause
    simp

/-- A group by after a function call is assigned to its leaf: whatever the
function's inner filter grouped by is gone. -/
theorem visitFunction_groupby {form : FunctionForm} {g : GroupBy} {v v' : MQLVisitor}
    {r : InitialParseResult} (h : visitFunction ⟨form, some g⟩ v = .ok (r, v')) :
    r.groupby = some (visitGroupBy g) := by
  simp only [visitFunction, bind_eq_ok, pure_eq_ok, Except.ok.injEq, Prod.mk.injEq] at h
  obtain ⟨_, -, rfl, rfl⟩ := h
  rfl

/-- ``sum(`d:transactions/x@none` by a) by b``, with the MRI quoted. -/
def sumByAThenByB : MqlExpression :=
  .expression (.ofFunction (.aggregate (.aggregate "sum"
      ⟨.quotedMri "`d:transactions/x@none`", none, some (.name "a")⟩)) (some (.name "b"))) []

/-- The leaf of ``sum(`d:transactions/x@none` by a) by b`` groups by `b` alone. -/
theorem visitMql_sumByAThenByB :
    ∃ r v, visitMql sumByAThenByB = .ok (.inl r, v) ∧ r.groupby = some (visitGroupBy (.name "b")) :=
  ⟨_, _, rfl, rfl⟩

end SnubaMql
