import SnubaMql.Syntax

/-! # The MQL visitor

`MQLVisitor` visits every child, left to right, before its parent's `visit_*`
method, threading its only state, `alias_count`, through the walk. No node is
shared, so the source's in-place updates are functional updates here.
-/

namespace SnubaMql

/-- `InitialParseResult`: a metric leaf or a formula node over nodes and numbers. -/
structure InitialParseResult where
  expression : Option SelectedExpression
  formula : Option String
  parameters : Option (List (InitialParseResult ⊕ ℚ))
  groupby : Option (List SelectedExpression)
  conditions : Option (List Expression)
  mri : Option String
  tableAlias : Option String

/-- `FormulaParameter = Union[InitialParseResult, int, float]`. -/
abbrev FormulaParameter := InitialParseResult ⊕ ℚ

namespace InitialParseResult

/-- `InitialParseResult(expression=None, formula=formula, parameters=parameters)`. -/
def formulaNode (formula : String) (parameters : List FormulaParameter) : InitialParseResult :=
  ⟨none, some formula, some parameters, none, none, none, none⟩

/-- `InitialParseResult(mri=mri, table_alias=table_alias)`. -/
def metricNode (mri tableAlias : String) : InitialParseResult :=
  ⟨none, none, none, none, none, some mri, some tableAlias⟩

end InitialParseResult

/-- `xs + new if xs else new`, for a list field that may be unset. -/
def appendField {α : Type} (xs : Option (List α)) (new : List α) : Option (List α) :=
  match xs with
  | some (x :: rest) => some (x :: rest ++ new)
  | _ => some new

@[simp] theorem appendField_eq {α : Type} (xs : Option (List α)) (new : List α) :
    appendField xs new = some (xs.getD [] ++ new) := by
  rcases xs with _ | _ | ⟨x, rest⟩ <;> rfl

namespace InitialParseResult

/-- What `visit_filter` does to a leaf: append the clause's condition and group by. -/
def attach (r : InitialParseResult) (newCondition : Option Expression)
    (groupby : List SelectedExpression) : InitialParseResult :=
  { r with
    conditions := match newCondition with
      | some c => appendField r.conditions [c]
      | none => r.conditions
    groupby := if groupby = [] then r.groupby else appendField r.groupby groupby }

end InitialParseResult

/-- `alias_count`: the last suffix handed out for each first character of an MRI. -/
@[ext] structure MQLVisitor where
  aliasCount : String → Option Nat

namespace MQLVisitor

/-- `MQLVisitor()`: no alias handed out yet. -/
def new : MQLVisitor := ⟨fun _ => none⟩

/-- `_generate_table_alias(mri)`: the MRI's first character and its next suffix, from 0. -/
def generateTableAlias (v : MQLVisitor) (mri : String) :
    Except PyException (String × MQLVisitor) :=
  match mri.toList with
  | [] => .error (.indexError "string index out of range")
  | c :: _ =>
      let aliasKey := String.singleton c
      let suffix := (v.aliasCount aliasKey).elim 0 (· + 1)
      .ok (aliasKey ++ toString suffix,
        ⟨fun k => if k = aliasKey then some suffix else v.aliasCount k⟩)

/-- `_filter(children, operator)`: one operand as it is, several in one call. -/
def filter (operator : String) (first : Expression) (others : List Expression) : Expression :=
  match others with
  | [] => first
  | _ :: _ => .functionCall none operator (first :: others)

end MQLVisitor

/-! ## Filters and group by -/

/-- `visit_quoted_string`: strip the quotes and unescape `\"`. -/
def visitQuotedString (text : String) : String :=
  ((text.drop 1).dropRight 1).replace "\\\"" "\""

/-- `visit_quoted_string` or `visit_unquoted_string`. -/
def StringToken.visit : StringToken → String
  | .quoted text => visitQuotedString text
  | .unquoted text => text

/-- `visit_tag_value`, with `visit_string_tuple` and `visit_variable`. -/
def visitTagValue : TagValue → Except PyException (String ⊕ List String)
  | .string s => .ok (.inl s.visit)
  | .tuple first rest => .ok (.inr (first.visit :: rest.map StringToken.visit))
  | .variable _ => .error (.invalidQuery "Variables are not supported yet")

/-- The comparison `visit_filter_factor` builds for `[!]tag_key:rhs`. -/
def visitComparison (negated : Bool) (tagKey : String) : String ⊕ List String → Expression
  | .inr values =>
      .functionCall none (if negated then "notIn" else "in")
        [.column none none tagKey, .functionCall none "tuple" (values.map (.literal none ∘ .str))]
  | .inl value =>
      .functionCall none (if negated then "notEquals" else "equals")
        [.column none none tagKey, .literal none (.str value)]

mutual
/-- `visit_filter_expr`: the terms, combined with `or`. -/
def visitFilterExpr : FilterExpr → Except PyException Expression
  | .filterExpr first rest => do
      let first ← visitFilterTerm first
      let others ← visitFilterTerms rest
      pure (MQLVisitor.filter "or" first others)
/-- The repeated terms of a `filter_expr`. -/
def visitFilterTerms : List FilterTerm → Except PyException (List Expression)
  | [] => pure []
  | t :: ts => do
      let t ← visitFilterTerm t
      let ts ← visitFilterTerms ts
      pure (t :: ts)
/-- `visit_filter_term`: the factors, combined with `and`. -/
def visitFilterTerm : FilterTerm → Except PyException Expression
  | .filterTerm first rest => do
      let first ← visitFilterFactor first
      let others ← visitFilterFactors rest
      pure (MQLVisitor.filter "and" first others)
/-- The repeated factors of a `filter_term`. -/
def visitFilterFactors : List FilterFactor → Except PyException (List Expression)
  | [] => pure []
  | f :: fs => do
      let f ← visitFilterFactor f
      let fs ← visitFilterFactors fs
      pure (f :: fs)
/-- `visit_filter_factor`, with `visit_nested_expr`. -/
def visitFilterFactor : FilterFactor → Except PyException Expression
  | .comparison negated tagKey value => do
      let rhs ← visitTagValue value
      pure (visitComparison negated tagKey rhs)
  | .nested e => visitFilterExpr e
end

/-- The condition of a filter block: `packed_filters[0]`, if any. -/
def visitFilterBlock : FilterBlock → Except PyException (Option Expression)
  | some (some e) => some <$> visitFilterExpr e
  | _ => pure none

/-- The names of `group_by`. -/
def GroupBy.names : GroupBy → List String
  | .name n => [n]
  | .tuple first rest => first :: rest

/-- `visit_group_by`: one selected column per name, aliased by its name. -/
def visitGroupBy (g : GroupBy) : List SelectedExpression :=
  g.names.map fun n => ⟨some n, .column (some n) none n⟩

/-- `visit_param_expression`. -/
def visitParamExpression : ParamExpression → Value
  | .number x => .num x
  | .string s => .str s.visit

/-- The literals `Literal(alias=None, value=param)` of a parameter list. -/
def paramLiterals (params : List ParamExpression) : List Expression :=
  params.map fun p => .literal none (visitParamExpression p)

/-! ## Metrics, aggregates and functions -/

/-- `visit_quoted_mri`, `visit_unquoted_mri` and the two public-name visitors. -/
def visitMetric : Metric → MQLVisitor → Except PyException (InitialParseResult × MQLVisitor)
  | .quotedMri text, v => do
      let mri := (text.drop 1).dropRight 1
      let (tableAlias, v) ← v.generateTableAlias mri
      pure (.metricNode mri tableAlias, v)
  | .unquotedMri text, v => do
      let (tableAlias, v) ← v.generateTableAlias text
      pure (.metricNode text tableAlias, v)
  | .quotedPublicName _, _ | .unquotedPublicName _, _ =>
      .error (.parsing "MQL endpoint only supports MRIs")

/-- `visit_inner_filter`: the metric's own filter block and group by are assigned to it. -/
def visitInnerFilter (f : InnerFilter) (v : MQLVisitor) :
    Except PyException (InitialParseResult × MQLVisitor) := do
  let (target, v) ← visitMetric f.metric v
  let filterCondition ← visitFilterBlock f.filters
  let target := match filterCondition with
    | some c => { target with conditions := some [c] }
    | none => target
  let target := match f.groupBy with
    | some g => { target with groupby := some (visitGroupBy g) }
    | none => target
  pure (target, v)

/-- The aggregate over the `value` column, aliased `aggregate_value`. -/
def AggregateCall.selectedAggregate : AggregateCall → Expression
  | .aggregate aggregateName _ =>
      .functionCall (some aggregateAlias) aggregateName [.column none none "value"]
  | .curriedAggregate aggregateName params _ =>
      .curriedFunctionCall (some aggregateAlias)
        (.functionCall none aggregateName (paramLiterals params)) [.column none none "value"]

/-- `visit_aggregate` and `visit_curried_aggregate`. -/
def visitAggregateCall (call : AggregateCall) (v : MQLVisitor) :
    Except PyException (InitialParseResult × MQLVisitor) := do
  let (target, v) ← visitInnerFilter call.inner v
  pure ({ target with expression := some ⟨some aggregateAlias, call.selectedAggregate⟩ }, v)

/-- The four function forms; `visit_arbitrary_function` drops the alias of the
aggregate it wraps. -/
def visitFunctionForm : FunctionForm → MQLVisitor →
    Except PyException (InitialParseResult × MQLVisitor)
  | .aggregate call, v => visitAggregateCall call v
  | .arbitraryFunction name inner params, v => do
      let (target, v) ← visitAggregateCall inner v
      match target.expression with
      | some ⟨n, .functionCall _ functionName parameters⟩ =>
          let aggregate := Expression.functionCall none functionName parameters
          pure ({ target with expression := some ⟨n,
            .functionCall n name (aggregate :: paramLiterals params)⟩ }, v)
      | _ => .error .assertionError
  | .curriedArbitraryFunction name aggParams inner params, v => do
      let (target, v) ← visitAggregateCall inner v
      match target.expression with
      | some ⟨n, e⟩ =>
          pure ({ target with expression := some ⟨n,
            .curriedFunctionCall none (.functionCall none name (paramLiterals aggParams))
              (e :: paramLiterals params)⟩ }, v)
      | none => .error .assertionError

/-- `visit_function`: a trailing group by is assigned to the leaf. -/
def visitFunction (f : MqlFunction) (v : MQLVisitor) :
    Except PyException (InitialParseResult × MQLVisitor) := do
  let (target, v) ← visitFunctionForm f.form v
  match f.groupBy with
  | some g => pure ({ target with groupby := some (visitGroupBy g) }, v)
  | none => pure (target, v)

/-! ## Pushdown and arithmetic -/

mutual
/-- `pushdown_values` on a node. -/
def pushdownNode (newCondition : Option Expression) (groupby : List SelectedExpression) :
    InitialParseResult → Except PyException InitialParseResult
  | ⟨e, some f, none, g, cs, m, a⟩ => pure ⟨e, some f, none, g, cs, m, a⟩
  | ⟨e, some f, some ps, g, cs, m, a⟩ => do
      let ps ← pushdownList newCondition groupby ps
      pure ⟨e, some f, some ps, g, cs, m, a⟩
  | ⟨some e, none, ps, g, cs, m, a⟩ =>
      pure (InitialParseResult.attach ⟨some e, none, ps, g, cs, m, a⟩ newCondition groupby)
  | ⟨none, none, _, _, _, _, _⟩ => .error (.invalidQuery "Could not parse formula")
/-- `pushdown_values(param)`: numbers are returned unchanged. -/
def pushdownValues (newCondition : Option Expression) (groupby : List SelectedExpression) :
    FormulaParameter → Except PyException FormulaParameter
  | .inl r => .inl <$> pushdownNode newCondition groupby r
  | .inr x => pure (.inr x)
/-- `for p in parameters: pushdown_values(p)`. -/
def pushdownList (newCondition : Option Expression) (groupby : List SelectedExpression) :
    List FormulaParameter → Except PyException (List FormulaParameter)
  | [] => pure []
  | p :: ps => do
      let p ← pushdownValues newCondition groupby p
      let ps ← pushdownList newCondition groupby ps
      pure (p :: ps)
end

/-- `visit_expr_op` and `visit_term_op`: `ARITHMETIC_OPERATORS_MAPPING[node.text]`. -/
def ExprOp.visit : ExprOp → String
  | .add => "plus"
  | .sub => "minus"

/-- `visit_term_op`. -/
def TermOp.visit : TermOp → String
  | .mul => "multiply"
  | .div => "divide"

/-- What `visit_expression` and `visit_term` build: the first operand alone, or a
formula over it and the first repetition's operand. -/
def combineFirstRepetition (term : FormulaParameter) :
    List (String × FormulaParameter) → FormulaParameter
  | [] => term
  | (operator, operand) :: _ => .inl (.formulaNode operator [term, operand])

/-- `visit_unary` under a minus: a number is negated, a node wrapped in `negate`. -/
def negateParameter : FormulaParameter → FormulaParameter
  | .inr x => .inr (-x)
  | .inl r => .inl (.formulaNode "negate" [.inl r])

/-- The body of `visit_filter` once its children are visited. -/
def applyFilterClause (target : InitialParseResult) (newCondition : Option Expression)
    (groupby : List SelectedExpression) : Except PyException InitialParseResult :=
  if newCondition.isSome || !groupby.isEmpty then
    if target.formula.isSome then
      match target.parameters with
      | none => pure target
      | some ps => do
          let ps ← pushdownList newCondition groupby ps
          pure { target with parameters := some ps }
    else pure (target.attach newCondition groupby)
  else pure target

mutual
/-- `visit_expression`: the later repetitions are visited and then not read. -/
def visitExpression : MqlExpression → MQLVisitor →
    Except PyException (FormulaParameter × MQLVisitor)
  | .expression first rest, v => do
      let (term, v) ← visitTerm first v
      let (others, v) ← visitExpressionOthers rest v
      pure (combineFirstRepetition term others, v)
/-- The `(expr_op term)*` repetitions, each visited in order. -/
def visitExpressionOthers : List (ExprOp × MqlTerm) → MQLVisitor →
    Except PyException (List (String × FormulaParameter) × MQLVisitor)
  | [], v => pure ([], v)
  | (op, t) :: rest, v => do
      let (t, v) ← visitTerm t v
      let (others, v) ← visitExpressionOthers rest v
      pure ((op.visit, t) :: others, v)
/-- `visit_term`, the same shape one precedence level down. -/
def visitTerm : MqlTerm → MQLVisitor → Except PyException (FormulaParameter × MQLVisitor)
  | .term first rest, v => do
      let (term, v) ← visitUnary first v
      let (others, v) ← visitTermOthers rest v
      pure (combineFirstRepetition term others, v)
/-- The `(term_op unary)*` repetitions, each visited in order. -/
def visitTermOthers : List (TermOp × MqlUnary) → MQLVisitor →
    Except PyException (List (String × FormulaParameter) × MQLVisitor)
  | [], v => pure ([], v)
  | (op, u) :: rest, v => do
      let (u, v) ← visitUnary u v
      let (others, v) ← visitTermOthers rest v
      pure ((op.visit, u) :: others, v)
/-- `visit_unary`. -/
def visitUnary : MqlUnary → MQLVisitor → Except PyException (FormulaParameter × MQLVisitor)
  | .unary negate c, v => do
      let (coefficient, v) ← visitCoefficient c v
      pure (if negate then negateParameter coefficient else coefficient, v)
/-- `visit_coefficient` and `visit_number`. -/
def visitCoefficient : MqlCoefficient → MQLVisitor →
    Except PyException (FormulaParameter × MQLVisitor)
  | .number x, v => pure (.inr x, v)
  | .filter f, v => do
      let (r, v) ← visitFilter f v
      pure (.inl r, v)
/-- `visit_filter`: the target, then its filter block and group by. -/
def visitFilter : MqlFilter → MQLVisitor → Except PyException (InitialParseResult × MQLVisitor)
  | .filter target filters groupBy, v => do
      let (target, v) ← visitTarget target v
      let newCondition ← visitFilterBlock filters
      let target ← applyFilterClause target newCondition ((groupBy.map visitGroupBy).getD [])
      pure (target, v)
/-- `visit_target`, with `visit_variable` and `visit_nested_expression`. -/
def visitTarget : MqlTarget → MQLVisitor → Except PyException (InitialParseResult × MQLVisitor)
  | .variable _, _ => .error (.invalidQuery "Variables are not supported yet")
  | .nestedExpression e, v => do
      let (r, v) ← visitExpression e v
      match r with
      | .inl r => pure (r, v)
      | .inr _ => .error .assertionError
  | .function f, v => visitFunction f v
  | .metric m, v => visitMetric m v
end

/-- `MQLVisitor().visit(exp_tree)`: a fresh visitor per parse. -/
def visitMql (tree : MqlExpression) : Except PyException (FormulaParameter × MQLVisitor) :=
  visitExpression tree MQLVisitor.new

end SnubaMql
