import SnubaMql.Visitor
import SnubaMql.Query

/-! # From the visitor's tree to a plan

`parse_mql_query_body` runs the visitor and hands a formula root to
`convert_formula_to_query` and any other root to
`convert_timeseries_to_query`. A formula's leaves are collected depth-first;
one leaf gives a query over one entity, several give a left-deep chain of
inner joins keyed on the shared group by columns.
-/

namespace SnubaMql

/-- `METRICS_ENTITIES`, keyed by an MRI's type character. -/
def metricsEntities : Char → Option EntityKey
  | 'c' => some .metricsCounters
  | 'd' => some .metricsDistributions
  | 's' => some .metricsSets
  | _ => none

/-- `GENERIC_ENTITIES`. -/
def genericEntities : Char → Option EntityKey
  | 'c' => some .genericMetricsCounters
  | 'd' => some .genericMetricsDistributions
  | 's' => some .genericMetricsSets
  | 'g' => some .genericMetricsGauges
  | _ => none

/-- `select_entity(mri, dataset)`: the entity of the MRI's first character in
the dataset's table. -/
def selectEntity (mri : String) (dataset : Dataset) : Except PyException EntityKey :=
  match mri.toList with
  | [] => .error (.indexError "string index out of range")
  | c :: _ =>
      let found :=
        if dataset.name = "metrics" then metricsEntities c
        else if dataset.name = "generic_metrics" then genericEntities c
        else none
      match found with
      | some entity => .ok entity
      | none => .error (.parsing ("invalid metric type " ++ c.toString))

/-- Python's truthiness of an optional string: set and not empty. -/
def truthy (s : Option String) : Option String :=
  s.filter (· ≠ "")

@[simp] theorem truthy_none : truthy none = none := rfl

theorem truthy_some {s : String} (h : s ≠ "") : truthy (some s) = some s := by
  simp [truthy, Option.filter, h]

mutual
/-- `find_all_leaf_nodes` on a node: itself if it has no formula, else the
leaves of its parameters. -/
def findAllLeafNodesNode : InitialParseResult → List InitialParseResult
  | r@⟨_, none, _, _, _, _, _⟩ => [r]
  | ⟨_, some _, none, _, _, _, _⟩ => []
  | ⟨_, some _, some ps, _, _, _, _⟩ => findAllLeafNodesList ps
/-- `find_all_leaf_nodes(tree)`: `None` for a number. -/
def findAllLeafNodes : FormulaParameter → Option (List InitialParseResult)
  | .inl r => some (findAllLeafNodesNode r)
  | .inr _ => none
/-- The leaves of the parameters, `if found: nodes.extend(found)`. -/
def findAllLeafNodesList : List FormulaParameter → List InitialParseResult
  | [] => []
  | p :: ps => (findAllLeafNodes p).getD [] ++ findAllLeafNodesList ps
end

/-- `build_node`: an individual node for a leaf. -/
def buildNode (dataset : Dataset) (node : InitialParseResult) :
    Except PyException IndividualNode :=
  match truthy node.mri with
  | none => .error (.invalidQuery "No MRI found")
  | some mri =>
      match truthy node.tableAlias with
      | none => .error (.invalidQuery ("No table alias found for MRI " ++ mri))
      | some tableAlias => do
          let entityKey ← selectEntity mri dataset
          pure ⟨tableAlias, ⟨entityKey⟩⟩

/-- The keys of one join of `build_join_clause`: each group by column of the
new node equals the same column of the previous node. -/
def joinKeys (lhs prev : String) (groupby : List SelectedExpression) :
    Except PyException (List JoinCondition) :=
  groupby.mapM fun g =>
    match g.expression with
    | .column _ _ columnName => .ok ⟨⟨lhs, columnName⟩, ⟨prev, columnName⟩⟩
    | _ => .error .assertionError

/-- `build_join_clause(prev_node, nodes)`: the first of `nodes` joins
`prev_node` on the left, and the rest of the chain hangs below it. -/
def buildJoinClause (dataset : Dataset) :
    IndividualNode → List InitialParseResult → Except PyException JoinClause
  | _, [] => .error (.invalidQuery "Invalid join clause in formula query")
  | prevNode, node :: nodes =>
      match truthy node.tableAlias with
      | none => .error (.invalidQuery "Invalid table alias in formula query")
      | some _ => do
          let lhs ← buildNode dataset node
          let conditions ← joinKeys lhs.tableAlias prevNode.tableAlias (node.groupby.getD [])
          let leftSide ← match nodes with
            | [] => pure (.inl lhs)
            | _ :: _ => Sum.inr <$> buildJoinClause dataset lhs nodes
          pure ⟨leftSide, prevNode, conditions, .inner⟩

/-- `build_formula_query_from_clause`: the plan's from clause and the leaves,
after checking that every leaf has the first leaf's group by. -/
def buildFormulaQueryFromClause (parsed : InitialParseResult) (dataset : Dataset) :
    Except PyException (Query × List InitialParseResult) :=
  match findAllLeafNodes (.inl parsed) with
  | none => .error (.invalidQuery "Could not parse formula")
  | some [] => .error (.indexError "list index out of range")
  | some (first :: rest) =>
      if (first :: rest).all (fun node => node.groupby == first.groupby) then do
        let entityKeys ← (first :: rest).mapM fun node => selectEntity (node.mri.getD "") dataset
        match entityKeys with
        | [entityKey] => pure ({ fromClause := .entity ⟨entityKey⟩ }, first :: rest)
        | _ => do
            let firstNode ← buildNode dataset first
            let joinClause ← buildJoinClause dataset firstNode rest
            pure ({ fromClause := .join joinClause }, first :: rest)
      else .error (.invalidQuery "All terms in a formula must have the same groupby")

/-- `alias_wrap`: no table qualifier in a plan over one entity. -/
def aliasWrap (query : Query) (tableAlias : Option String) : Option String :=
  if query.isLogical then none else tableAlias

/-- A leaf's aggregate in the select list: the call with its alias removed and
only its first parameter kept, a column qualified by the leaf's alias. -/
def extractLeafExpression (wrap : Option String → Option String)
    (aggregateFunction : Expression) (tableAlias : Option String) :
    Except PyException Expression :=
  match aggregateFunction with
  | .functionCall _ name (.column a _ c :: _) =>
      .ok (.functionCall none name [.column a (wrap tableAlias) c])
  | .curriedFunctionCall _ internal (.column a _ c :: _) =>
      .ok (.curriedFunctionCall none internal [.column a (wrap tableAlias) c])
  | .functionCall _ _ [] | .curriedFunctionCall _ _ [] =>
      .error (.indexError "tuple index out of range")
  | _ => .error .assertionError

mutual
/-- `extract_expression` on a node: a leaf gives its aggregate, a formula the
call of its operator over its parameters. -/
def extractExpressionNode (wrap : Option String → Option String) :
    InitialParseResult → Except PyException Expression
  | ⟨some e, _, _, _, _, _, a⟩ => extractLeafExpression wrap e.expression a
  | ⟨none, some f, ps, _, _, _, _⟩ =>
      if f = "" then .error (.invalidQuery "Could not build selected expression for formula")
      else match ps with
        | none => .ok (.functionCall none f [])
        | some ps => do
            let ps ← extractExpressions wrap ps
            pure (.functionCall none f ps)
  | ⟨none, none, _, _, _, _, _⟩ =>
      .error (.invalidQuery "Could not build selected expression for formula")
/-- `extract_expression(param)`: a number becomes a literal. -/
def extractExpression (wrap : Option String → Option String) :
    FormulaParameter → Except PyException Expression
  | .inl r => extractExpressionNode wrap r
  | .inr x => .ok (.literal none (.num x))
/-- `tuple(extract_expression(p) for p in parameters)`. -/
def extractExpressions (wrap : Option String → Option String) :
    List FormulaParameter → Except PyException (List Expression)
  | [] => .ok []
  | p :: ps => do
      let e ← extractExpression wrap p
      let es ← extractExpressions wrap ps
      pure (e :: es)
end

/-- The group by columns hoisted out of the leaves, each qualified by its
leaf's alias. -/
def hoistGroupby (wrap : Option String → Option String) (nodes : List InitialParseResult) :
    List SelectedExpression :=
  nodes.flatMap fun leaf =>
    (leaf.groupby.getD []).filterMap fun g =>
      match g.expression with
      | .column a _ c => some ⟨g.name, .column a (wrap leaf.tableAlias) c⟩
      | _ => none

/-- One attached condition, re-qualified by `extract_filters`: a condition
whose first argument is a column gets that column qualified; any other is
dropped. -/
def qualifyCondition (wrap : Option String → Option String) (tableAlias : Option String) :
    Expression → Except PyException (Option Expression)
  | .functionCall a name (.column ca _ cn :: rest) =>
      .ok (some (.functionCall a name (.column ca (wrap tableAlias) cn :: rest)))
  | .functionCall _ _ [] => .error (.indexError "tuple index out of range")
  | .functionCall _ _ (_ :: _) => .ok none
  | _ => .error .assertionError

/-- The `metric_id` condition `extract_filters` adds for a leaf. -/
def metricIdCondition (wrap : Option String → Option String) (tableAlias mri : Option String) :
    Expression :=
  binaryCondition "equals" (.column none (wrap tableAlias) "metric_id")
    (.literal none (match mri with | some m => .str m | none => .null))

mutual
/-- `extract_filters` on a node: a leaf's re-qualified conditions followed by
its `metric_id` condition, or the conditions of a formula's parameters. -/
def extractFiltersNode (wrap : Option String → Option String) :
    InitialParseResult → Except PyException (List Expression)
  | ⟨some _, _, _, _, cs, m, a⟩ => do
      let kept ← (cs.getD []).filterMapM (qualifyCondition wrap a)
      pure (kept ++ [metricIdCondition wrap a m])
  | ⟨none, some f, ps, _, _, _, _⟩ =>
      if f = "" then .error (.invalidQuery "Could not extract valid filters for formula")
      else match ps with
        | none => .ok []
        | some ps => extractFiltersList wrap ps
  | ⟨none, none, _, _, _, _, _⟩ =>
      .error (.invalidQuery "Could not extract valid filters for formula")
/-- `extract_filters(param)`: a number has none. -/
def extractFilters (wrap : Option String → Option String) :
    FormulaParameter → Except PyException (List Expression)
  | .inl r => extractFiltersNode wrap r
  | .inr _ => .ok []
/-- The conditions of every parameter, concatenated. -/
def extractFiltersList (wrap : Option String → Option String) :
    List FormulaParameter → Except PyException (List Expression)
  | [] => .ok []
  | p :: ps => do
      let cs ← extractFilters wrap p
      let css ← extractFiltersList wrap ps
      pure (cs ++ css)
end

/-- `convert_formula_to_query`: the from clause of
`build_formula_query_from_clause`, the formula as the select list's
`aggregate_value`, the hoisted group by, and every leaf's conditions. -/
def convertFormulaToQuery (parsed : InitialParseResult) (dataset : Dataset) :
    Except PyException Query :=
  match parsed.formula with
  | none => .error (.invalidQuery "Parsed formula has no formula name specified")
  | some formula => do
      let (query, nodes) ← buildFormulaQueryFromClause parsed dataset
      let wrap := aliasWrap query
      let parameters := parsed.parameters.getD []
      let params ← extractExpressions wrap parameters
      let hoisted := hoistGroupby wrap nodes
      let query := if hoisted = [] then query
        else { query with groupby := hoisted.map (·.expression) }
      let query := { query with selectedColumns :=
        ⟨some aggregateAlias, .functionCall (some aggregateAlias) formula params⟩ :: hoisted }
      let conditions ← extractFiltersList wrap parameters
      let condition ← combineAndConditions conditions
      pure (query.addConditionToAst condition)

/-- `convert_timeseries_to_query`: a plan over the leaf's entity selecting its
expression and group by, filtered on its `metric_id` and its conditions. -/
def convertTimeseriesToQuery (parsed : InitialParseResult) (dataset : Dataset) :
    Except PyException Query :=
  match parsed.expression with
  | none => .error (.invalidQuery "Parsed expression has no expression specified")
  | some expression =>
      let groupby := parsed.groupby.getD []
      match truthy parsed.mri with
      | none => .error (.parsing "no MRI specified in MQL query")
      | some metricValue => do
          let conditions := binaryCondition "equals" (.column none none "metric_id")
            (.literal none (.str metricValue)) :: parsed.conditions.getD []
          let finalConditions ← combineAndConditions conditions
          let entityKey ← selectEntity metricValue dataset
          pure { fromClause := .entity ⟨entityKey⟩
                 selectedColumns := expression :: groupby
                 condition := some finalConditions
                 groupby := groupby.map (·.expression) }

/-- What `MQL_GRAMMAR.parse(body)` gives: a parse tree, an
`IncompleteParseError` at a 1-based line and column, or another parse error. -/
inductive GrammarResult where
  | tree (t : MqlExpression)
  | incomplete (line column : Nat)
  | parseError (message : String)

/-- The message of the `ParsingException` for an `IncompleteParseError`: up to
three characters before the column and ten from it, on the failing line. -/
def incompleteParseMessage (body : String) (line column : Nat) : String :=
  let lines := body.splitOn "\n"
  let text := if line > lines.length then body else lines.getD (line - 1) body
  let before := (text.drop (column - 3)).take (column - (column - 3))
  let after := (text.drop column).take 10
  "Parsing error on line " ++ toString line ++ " at \x27" ++ before ++ after ++ "\x27"

/-- The first line of a message, `message.split("\n", 1)[0]`. -/
def firstLine (message : String) : String :=
  (message.splitOn "\n").headD message

/-- `parse_mql_query_body`. A visitor exception reaches the catch-all wrapped
by parsimonious in a `VisitationError`, whose first line is `Class: message`;
the checks and builders after the visitor run outside the catch-all.
`EntityQuery.from_query` keeps the plan. -/
def parseMqlQueryBody (body : String) (parse : GrammarResult) (dataset : Dataset) :
    Except PyException Query := do
  let parsed ← match parse with
    | .incomplete line column => .error (.parsing (incompleteParseMessage body line column))
    | .parseError message => .error (.parsing (firstLine message))
    | .tree t =>
        match visitMql t with
        | .ok (r, _) => .ok r
        | .error e => .error (.parsing (firstLine (e.className ++ ": " ++ e.message)))
  match parsed with
  | .inr _ => .error (.attributeError "\x27float\x27 object has no attribute \x27expression\x27")
  | .inl parsed =>
      if parsed.expression.isNone && (truthy parsed.formula).isNone then
        .error (.parsing "No aggregate/expression or formula specified in MQL query")
      else if (truthy parsed.formula).isSome then convertFormulaToQuery parsed dataset
      else convertTimeseriesToQuery parsed dataset

end SnubaMql
