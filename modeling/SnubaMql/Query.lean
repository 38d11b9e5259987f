import SnubaMql.Expressions

/-! # Query plans

A plan is a `LogicalQuery` over one entity or a `CompositeQuery` over a join
clause, a left-deep tree whose right node is always an aliased entity.
-/

namespace SnubaMql

/-- The metric entities `select_entity` resolves to. -/
inductive EntityKey where
  | metricsCounters
  | metricsDistributions
  | metricsSets
  | genericMetricsCounters
  | genericMetricsDistributions
  | genericMetricsSets
  | genericMetricsGauges
deriving DecidableEq, Repr

/-- `Entity(key, schema)`; nothing here reads the schema. -/
structure QueryEntity where
  key : EntityKey
deriving DecidableEq, Repr

/-- A dataset, known to the compiler by `get_dataset_name`. -/
structure Dataset where
  name : String
deriving DecidableEq, Repr

/-- `IndividualNode(alias, data_source)`. -/
structure IndividualNode where
  tableAlias : String
  dataSource : QueryEntity
deriving DecidableEq, Repr

/-- `JoinConditionExpression(table_alias, column)`. -/
structure JoinConditionExpression where
  tableAlias : String
  column : String
deriving DecidableEq, Repr

/-- `JoinCondition(left, right)`: one equality key of a join. -/
structure JoinCondition where
  left : JoinConditionExpression
  right : JoinConditionExpression
deriving DecidableEq, Repr

inductive JoinType where
  | inner
  | left
deriving DecidableEq, Repr

/-- `JoinClause(left_node, right_node, keys, join_type)`. -/
structure JoinClause where
  leftNode : IndividualNode ⊕ JoinClause
  rightNode : IndividualNode
  keys : List JoinCondition
  joinType : JoinType

/-- `d[k] = v` on an insertion-ordered dict, kept as its list of items. -/
def dictSet {α : Type} (d : List (String × α)) (k : String) (v : α) : List (String × α) :=
  if d.any (·.1 == k) then d.map (fun p => if p.1 = k then (k, v) else p) else d ++ [(k, v)]

namespace JoinClause

/-- `get_alias_node_map()`: the left subtree's map, then the right node's. -/
def getAliasNodeMap : JoinClause → List (String × IndividualNode)
  | ⟨.inl n, r, _, _⟩ => dictSet [(n.tableAlias, n)] r.tableAlias r
  | ⟨.inr c, r, _, _⟩ => dictSet c.getAliasNodeMap r.tableAlias r

/-- The individual nodes, from the deepest left node to the top right node. -/
def individualNodes : JoinClause → List IndividualNode
  | ⟨.inl n, r, _, _⟩ => [n, r]
  | ⟨.inr c, r, _, _⟩ => c.individualNodes ++ [r]

/-- The keys of every join of the tree, innermost first. -/
def allKeys : JoinClause → List JoinCondition
  | ⟨.inl _, _, ks, _⟩ => ks
  | ⟨.inr c, _, ks, _⟩ => c.allKeys ++ ks

/-- The join types of every join of the tree. -/
def joinTypes : JoinClause → List JoinType
  | ⟨.inl _, _, _, t⟩ => [t]
  | ⟨.inr c, _, _, t⟩ => c.joinTypes ++ [t]

end JoinClause

/-- An entity for a `LogicalQuery`, a join clause for a `CompositeQuery`. -/
inductive FromClause where
  | entity (e : QueryEntity)
  | join (j : JoinClause)

/-- The fields of a query plan that the compiler and population write. -/
structure Query where
  fromClause : FromClause
  selectedColumns : List SelectedExpression := []
  condition : Option Expression := none
  groupby : List Expression := []
  orderBy : List OrderBy := []
  limit : Option Int := none
  offset : Int := 0
  totals : Bool := false

namespace Query

/-- `isinstance(query, LogicalQuery)`. -/
def isLogical (q : Query) : Bool :=
  match q.fromClause with
  | .entity _ => true
  | .join _ => false

/-- `add_condition_to_ast(condition)`: conjoined in front of any existing one. -/
def addConditionToAst (q : Query) (c : Expression) : Query :=
  match q.condition with
  | none => { q with condition := some c }
  | some old => { q with condition := some (binaryCondition "and" c old) }

/-- Adding a condition changes the condition and nothing else. -/
@[simp] theorem addConditionToAst_eq (q : Query) (c : Expression) :
    q.addConditionToAst c =
      { q with condition := some (q.condition.elim c (binaryCondition "and" c)) } := by
  unfold addConditionToAst; cases q.condition <;> rfl

end Query

end SnubaMql
