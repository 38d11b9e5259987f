import SnubaMql.Expressions

/-! # MQL parse trees

`MQL_GRAMMAR` comes from `snuba_sdk` and is not in this repository. These types
follow the grammar the spec gives, refined by the children each `visit_*`
method reads; tokens the visitor never reads are left out.
-/

namespace SnubaMql

/-- `expr_op`: `+` or `-`. -/
inductive ExprOp where
  | add
  | sub
deriving DecidableEq, Repr

/-- `term_op`: `*` or `/`. -/
inductive TermOp where
  | mul
  | div
deriving DecidableEq, Repr

/-- A `quoted_string`, with its quotes, or an `unquoted_string`. -/
inductive StringToken where
  | quoted (text : String)
  | unquoted (text : String)
deriving DecidableEq, Repr

/-- `tag_value`: a string, a `string_tuple` or a variable. No parse reaches
`variable`: the grammar tries `unquoted_string` first, which matches `$name`. -/
inductive TagValue where
  | string (s : StringToken)
  | tuple (first : StringToken) (rest : List StringToken)
  | variable (name : String)
deriving DecidableEq, Repr

mutual
/-- `filter_expr`: terms separated by `OR`. -/
inductive FilterExpr where
  | filterExpr (first : FilterTerm) (rest : List FilterTerm)
/-- `filter_term`: factors separated by `AND` or `,`. -/
inductive FilterTerm where
  | filterTerm (first : FilterFactor) (rest : List FilterFactor)
/-- `filter_factor`: `[!]tag:value` or a parenthesised filter expression. -/
inductive FilterFactor where
  | comparison (negated : Bool) (tagKey : String) (value : TagValue)
  | nested (e : FilterExpr)
end

/-- `group_by`: `by name` or `by (n1, ..., nk)`. -/
inductive GroupBy where
  | name (n : String)
  | tuple (first : String) (rest : List String)
deriving DecidableEq, Repr

/-- `param_expression`: a number or a string. -/
inductive ParamExpression where
  | number (x : ℚ)
  | string (s : StringToken)
deriving DecidableEq, Repr

/-- `metric`: an MRI, quoted with backticks or bare, or a public name. -/
inductive Metric where
  | quotedMri (text : String)
  | unquotedMri (text : String)
  | quotedPublicName (text : String)
  | unquotedPublicName (text : String)
deriving DecidableEq, Repr

/-- A filter block: absent, empty braces, or braces around a filter. -/
abbrev FilterBlock := Option (Option FilterExpr)

/-- `inner_filter`: the metric, filter block and group by inside an aggregate's parentheses. -/
structure InnerFilter where
  metric : Metric
  filters : FilterBlock
  groupBy : Option GroupBy

/-- An aggregate call `name(inner)` or `name(params)(inner)`. -/
inductive AggregateCall where
  | aggregate (name : String) (inner : InnerFilter)
  | curriedAggregate (name : String) (params : List ParamExpression) (inner : InnerFilter)

def AggregateCall.inner : AggregateCall → InnerFilter
  | .aggregate _ inner | .curriedAggregate _ _ inner => inner

/-- The four function forms; an arbitrary function wraps an aggregate call. -/
inductive FunctionForm where
  | aggregate (call : AggregateCall)
  | arbitraryFunction (name : String) (inner : AggregateCall) (params : List ParamExpression)
  | curriedArbitraryFunction (name : String) (aggParams : List ParamExpression)
      (inner : AggregateCall) (params : List ParamExpression)

def FunctionForm.call : FunctionForm → AggregateCall
  | .aggregate call | .arbitraryFunction _ call _ | .curriedArbitraryFunction _ _ call _ => call

/-- `function`: a function form and an optional group by. -/
structure MqlFunction where
  form : FunctionForm
  groupBy : Option GroupBy

mutual
/-- `expression := term (expr_op term)*`. -/
inductive MqlExpression where
  | expression (first : MqlTerm) (rest : List (ExprOp × MqlTerm))
/-- `term := unary (term_op unary)*`. -/
inductive MqlTerm where
  | term (first : MqlUnary) (rest : List (TermOp × MqlUnary))
/-- `unary := "-"? coefficient`. -/
inductive MqlUnary where
  | unary (negate : Bool) (coefficient : MqlCoefficient)
/-- `coefficient := number | filter`. -/
inductive MqlCoefficient where
  | number (x : ℚ)
  | filter (f : MqlFilter)
/-- `filter := target ("{" filter_expr? "}")? group_by?`. -/
inductive MqlFilter where
  | filter (target : MqlTarget) (filters : FilterBlock) (groupBy : Option GroupBy)
/-- `target := variable | "(" expression ")" | function | metric`. -/
inductive MqlTarget where
  | variable (name : String)
  | nestedExpression (e : MqlExpression)
  | function (f : MqlFunction)
  | metric (m : Metric)
end

def MqlTerm.ofNumber (x : ℚ) : MqlTerm :=
  .term (.unary false (.number x)) []

/-- The term of a lone function call. -/
def MqlTerm.ofFunction (form : FunctionForm) (groupBy : Option GroupBy) : MqlTerm :=
  .term (.unary false (.filter (.filter (.function ⟨form, groupBy⟩) none none))) []

/-- The call `aggregate(mri)` of a bare MRI, with no clause of its own. -/
def AggregateCall.ofMri (aggregate mri : String) : AggregateCall :=
  .aggregate aggregate ⟨.unquotedMri mri, none, none⟩

end SnubaMql
