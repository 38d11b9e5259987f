import SnubaMql.Visitor

/-! # Operator chains

`visit_expression` and `visit_term` read only `zero_or_more_others[0]`: a
chain `a op b op c ...` becomes one two-operand node over `a` and `b`, and the
later operands are visited (their metrics still take aliases) but left out of
the tree. `visitExpression_chain` and `visitTerm_chain` state this for chains
of every length; `1 - 2 - 3` shows the third operand disappearing.
-/

namespace SnubaMql

/-- A `+`/`-` chain with at least one operator gives a two-operand node over
the first term and the first repetition's term, whatever follows them. -/
theorem visitExpression_chain {first t : MqlTerm} {op : ExprOp} {rest : List (ExprOp × MqlTerm)}
    {v v' : MQLVisitor} {r : FormulaParameter}
    (h : visitExpression (.expression first ((op, t) :: rest)) v = .ok (r, v')) :
    ∃ a b v₁ v₂, visitTerm first v = .ok (a, v₁) ∧ visitTerm t v₁ = .ok (b, v₂) ∧
      r = .inl (.formulaNode op.visit [a, b]) := by
  simp only [visitExpression, visitExpressionOthers, bind_eq_ok, pure_eq_ok, Except.ok.injEq] at h
  obtain ⟨⟨a, v₁⟩, ha, _, ⟨⟨b, v₂⟩, hb, _, -, rfl⟩, hr⟩ := h
  cases hr
  exact ⟨a, b, v₁, v₂, ha, hb, rfl⟩

/-- A `*`/`/` chain with at least one operator gives a two-operand node over
the first unary and the first repetition's unary, whatever follows them. -/
theorem visitTerm_chain {first u : MqlUnary} {op : TermOp} {rest : List (TermOp × MqlUnary)}
    {v v' : MQLVisitor} {r : FormulaParameter}
    (h : visitTerm (.term first ((op, u) :: rest)) v = .ok (r, v')) :
    ∃ a b v₁ v₂, visitUnary first v = .ok (a, v₁) ∧ visitUnary u v₁ = .ok (b, v₂) ∧
      r = .inl (.formulaNode op.visit [a, b]) := by
  simp only [visitTerm, visitTermOthers, bind_eq_ok, pure_eq_ok, Except.ok.injEq] at h
  obtain ⟨⟨a, v₁⟩, ha, _, ⟨⟨b, v₂⟩, hb, _, -, rfl⟩, hr⟩ := h
  cases hr
  exact ⟨a, b, v₁, v₂, ha, hb, rfl⟩

/-- The parse tree of `1 - 2 - 3`. -/
def oneMinusTwoMinusThree : MqlExpression :=
  .expression (.ofNumber 1) [(.sub, .ofNumber 2), (.sub, .ofNumber 3)]

/-- `1 - 2 - 3` becomes `minus(1, 2)`, not `minus(minus(1, 2), 3)`. -/
theorem visitMql_oneMinusTwoMinusThree :
    visitMql oneMinusTwoMinusThree =
      .ok (.inl (.formulaNode "minus" [.inr 1, .inr 2]), MQLVisitor.new) := rfl

end SnubaMql
