import SnubaMql.Formula

/-! # Context population

`populate_query_from_mql_context` conjoins to the plan's condition the time
range, scope and granularity of every data source. Its per-source builders live
in `context_population`, outside this repository, and follow the spec here.
-/

namespace SnubaMql

/-- The `rollup` of an MQL context. -/
structure Rollup where
  granularity : Int
  interval : Option Int
  withTotals : Option String
  orderby : Option String

/-- The `scope` of an MQL context. -/
structure MetricsScope where
  orgIds : List Int
  projectIds : List Int
  useCaseId : String

/-- `MQLContext`, as `MQLContext.from_dict` builds it from the request. -/
structure MQLContext where
  start : String
  «end» : String
  rollup : Rollup
  scope : MetricsScope
  limit : Option Int
  offset : Option Int

/-- `parse_datetime` and the entity registry's `required_time_column`. -/
structure Services where
  parseDatetime : String → Option Datetime
  requiredTimeColumn : EntityKey → Option String

/-- Modelled from the spec: `GRANULARITIES_AVAILABLE`, in seconds. -/
def granularitiesAvailable : List Int := [10, 60, 3600, 86400]

/-- Modelled from the spec: `MAX_LIMIT`, the hard ceiling on a limit. -/
def maxLimit : Int := 10000

/-- Modelled from the spec: `start_end_time_condition`, the body of
`populate_start_end_time` with its columns qualified by the alias. -/
def startEndTimeCondition (services : Services) (ctx : MQLContext) (entityKey : EntityKey)
    (tableAlias : Option String) : Except PyException Expression :=
  match services.parseDatetime ctx.start, services.parseDatetime ctx.«end» with
  | some start, some stop =>
      let column := (truthy (services.requiredTimeColumn entityKey)).getD "timestamp"
      combineAndConditions
        [binaryCondition "greaterOrEquals" (.column none tableAlias column)
          (.literal none (.datetime start)),
         binaryCondition "less" (.column none tableAlias column) (.literal none (.datetime stop))]
  | _, _ => .error (.parsing "Invalid start or end time")

/-- Modelled from the spec: `scope_conditions`, the body of `populate_scope`
with its columns qualified by the alias. -/
def scopeConditions (ctx : MQLContext) (tableAlias : Option String) :
    Except PyException Expression :=
  combineAndConditions
    [binaryCondition "in" (.column none tableAlias "project_id")
      (.functionCall none "tuple" (ctx.scope.projectIds.map fun (p : Int) => .literal none (.num p))),
     binaryCondition "in" (.column none tableAlias "org_id")
      (.functionCall none "tuple" (ctx.scope.orgIds.map fun (o : Int) => .literal none (.num o))),
     binaryCondition "equals" (.column none tableAlias "use_case_id")
      (.literal none (.str ctx.scope.useCaseId))]

/-- The validation of `populate_rollup`, in its order. -/
def validateRollup (rollup : Rollup) : Except PyException Unit :=
  if rollup.granularity ∉ granularitiesAvailable then
    .error (.parsing ("granularity \x27" ++ toString rollup.granularity ++
      "\x27 is not valid, must be one of " ++ toString granularitiesAvailable))
  else if rollup.withTotals.any (fun t => t ≠ "True" ∧ t ≠ "False") then
    .error (.parsing "with_totals must be a string, either \x27True\x27 or \x27False\x27")
  else if rollup.orderby.any (fun o => o ≠ "ASC" ∧ o ≠ "DESC") then
    .error (.parsing "orderby must be either \x27ASC\x27 or \x27DESC\x27")
  else if rollup.interval.isSome ∧ rollup.orderby.isSome then
    .error (.parsing "orderby is not supported when interval is specified")
  else if rollup.interval.any (fun i => i ≠ 0 ∧ (i < 10 ∨ i < rollup.granularity)) then
    .error (.parsing ("interval " ++ toString (rollup.interval.getD 0) ++
      " must be greater than or equal to granularity " ++ toString rollup.granularity))
  else .ok ()

/-- The time bucket of an alias, named `time`. -/
def timeExpression (interval : Int) (tableAlias : Option String) : Expression :=
  .functionCall (some "time") "toStartOfInterval"
    [.column none tableAlias "timestamp",
     .functionCall none "toIntervalSecond" [.literal none (.num interval)],
     .literal none (.str "Universal")]

/-- Modelled from the spec: `rollup_expressions`, the body of `populate_rollup`
returning what it sets. -/
def rollupExpressions (ctx : MQLContext) (tableAlias : Option String) :
    Except PyException (Expression × Bool × Option OrderBy × Option SelectedExpression) := do
  let rollup := ctx.rollup
  validateRollup rollup
  let granularityCondition := binaryCondition "equals" (.column none tableAlias "granularity")
    (.literal none (.num rollup.granularity))
  let withTotals := rollup.withTotals = some "True"
  match rollup.interval.filter (· ≠ 0) with
  | some interval =>
      let time := timeExpression interval tableAlias
      pure (granularityCondition, withTotals, some ⟨.asc, time⟩, some ⟨some "time", time⟩)
  | none =>
      match rollup.orderby with
      | some o =>
          let direction := if o = "ASC" then OrderByDirection.asc else .desc
          pure (granularityCondition, withTotals,
            some ⟨direction, .column none none aggregateAlias⟩, none)
      | none => pure (granularityCondition, withTotals, none, none)

/-- Modelled from the spec: `limit_value`, 1000 by default. -/
def limitValue (ctx : MQLContext) : Except PyException Int :=
  match ctx.limit.filter (· ≠ 0) with
  | none => .ok 1000
  | some limit =>
      if limit > maxLimit then .error (.parsing "queries cannot have a limit higher than 10000")
      else .ok limit

/-- Modelled from the spec: `offset_value`. -/
def offsetValue (ctx : MQLContext) : Except PyException (Option Int) :=
  match ctx.offset.filter (· ≠ 0) with
  | none => .ok none
  | some offset =>
      if offset < 0 then .error (.parsing "offset must be greater than or equal to 0")
      else .ok (some offset)

/-- `entity_data`: the entity key and table alias of every data source. -/
def entityData (query : Query) : List (EntityKey × Option String) :=
  match query.fromClause with
  | .entity e => [(e.key, none)]
  | .join j => j.getAliasNodeMap.map fun p => (p.2.dataSource.key, some p.1)

/-- The context condition of one data source. -/
def contextCondition (services : Services) (ctx : MQLContext) (entityKey : EntityKey)
    (tableAlias : Option String) : Except PyException Expression := do
  let timeCondition ← startEndTimeCondition services ctx entityKey tableAlias
  let scopeCondition ← scopeConditions ctx tableAlias
  let (granularityCondition, _) ← rollupExpressions ctx tableAlias
  combineAndConditions [timeCondition, scopeCondition, granularityCondition]

/-- One iteration of the loop over `entity_data`; the flag records whether some
source produced a time bucket. -/
def populateSource (services : Services) (ctx : MQLContext) (query : Query) (found : Bool)
    (source : EntityKey × Option String) : Except PyException (Query × Bool) := do
  let condition ← contextCondition services ctx source.1 source.2
  let (_, withTotals, orderby, selectedTime) ← rollupExpressions ctx source.2
  let query := { query.addConditionToAst condition with totals := withTotals }
  let query := match orderby with
    | some o => { query with orderBy := [o] }
    | none => query
  match selectedTime with
  | some time => pure ({ query with
      selectedColumns := query.selectedColumns ++ [time]
      groupby := query.groupby ++ [time.expression] }, true)
  | none => pure (query, found)

/-- The loop over `entity_data`. -/
def populateSources (services : Services) (ctx : MQLContext) :
    List (EntityKey × Option String) → Query → Bool → Except PyException (Query × Bool)
  | [], query, found => pure (query, found)
  | source :: sources, query, found => do
      let (query, found) ← populateSource services ctx query found source
      populateSources services ctx sources query found

/-- The time keys of the join fix-up. -/
def timeJoinKeys (base : String) (sources : List (EntityKey × Option String)) :
    Except PyException (List JoinCondition) :=
  (sources.filter (fun d => d.2 ≠ some base)).mapM fun d =>
    match d.2 with
    | some other => .ok ⟨⟨base, "time"⟩, ⟨other, "time"⟩⟩
    | none => .error .assertionError

/-- The join fix-up of a composite plan grouped by time. -/
def joinTimeFixup (query : Query) (sources : List (EntityKey × Option String)) :
    Except PyException Query :=
  match query.fromClause with
  | .join j => do
      let newConditions ← timeJoinKeys j.rightNode.tableAlias sources
      pure { query with fromClause := .join { j with keys := j.keys ++ newConditions } }
  | .entity _ => .error .assertionError

/-- `populate_query_from_mql_context`. -/
def populateQueryFromMqlContext (services : Services) (query : Query) (ctx : MQLContext) :
    Except PyException (Query × MQLContext) := do
  let sources := entityData query
  let (query, selectedTimeFound) ← populateSources services ctx sources query false
  let query ← if !query.isLogical && selectedTimeFound then joinTimeFixup query sources
    else pure query
  let limit ← limitValue ctx
  let offset ← offsetValue ctx
  let query := { query with limit := some limit }
  let query := match offset with
    | some o => { query with offset := o }
    | none => query
  pure (query, ctx)

end SnubaMql
