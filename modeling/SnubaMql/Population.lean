import SnubaMql.Plans
import SnubaMql.Context

/-! # Context population

`populate_query_from_mql_context` visits the data sources of a plan: the
entity of a single-source plan, or the items of the join's alias map. For a
context that passes population's own checks (`ContextValid`),
`populateQueryFromMqlContext_spec` gives the whole result: every source's
time range, scope and granularity conjoined in front of the plan's condition,
one time bucket per source when the rollup has an interval, and, for a join,
one time key from the base alias to every other alias. A plan compiled from MQL
has distinct aliases, so its alias map lists every individual node of its join
(`parseMqlQueryBody_plan`). Each source also sets the totals and the order by
of the rollup, so the last source's order by is the one the plan keeps
(`populateQueryFromMqlContext_rollup`).
-/

namespace SnubaMql

/-! ## The alias map of a join -/

theorem any_fst_eq {α : Type} (d : List (String × α)) (k : String) :
    d.any (·.1 == k) = decide (k ∈ d.map Prod.fst) := by
  induction d with
  | nil => rfl
  | cons p d ih =>
      rw [List.any_cons, ih]
      simp only [List.map_cons, List.mem_cons, Bool.decide_or, beq_eq_decide, eq_comm]

theorem dictSet_keys {α : Type} (d : List (String × α)) (k : String) (v : α) :
    (dictSet d k v).map Prod.fst =
      if k ∈ d.map Prod.fst then d.map Prod.fst else d.map Prod.fst ++ [k] := by
  by_cases hk : k ∈ d.map Prod.fst
  · simp only [dictSet, any_fst_eq, hk, decide_True, if_true, List.map_map]
    congr 1
    funext p
    by_cases hp : p.1 = k <;> simp [hp]
  · simp [dictSet, any_fst_eq, hk]

theorem dictSet_of_not_mem {α : Type} {d : List (String × α)} {k : String} (v : α)
    (hk : k ∉ d.map Prod.fst) : dictSet d k v = d ++ [(k, v)] := by
  simp [dictSet, any_fst_eq, hk]

namespace JoinClause

/-- The keys of `get_alias_node_map()`, in the order of the dict. -/
def aliasMapKeys (j : JoinClause) : List String := j.getAliasNodeMap.map Prod.fst

/-- The alias map has each alias of the tree as a key, once. -/
theorem aliasMapKeys_spec : ∀ j : JoinClause,
    j.aliasMapKeys.Nodup ∧ ∀ a, a ∈ j.aliasMapKeys ↔ a ∈ j.aliases
  | ⟨.inl n, r, _, _⟩ => by
      by_cases h : r.tableAlias = n.tableAlias
      · simp [aliasMapKeys, getAliasNodeMap, dictSet_keys, aliases, individualNodes, h]
      · simp [aliasMapKeys, getAliasNodeMap, dictSet_keys, aliases, individualNodes, h, Ne.symm h]
  | ⟨.inr c, r, _, _⟩ => by
      obtain ⟨hnd, hmem⟩ := aliasMapKeys_spec c
      simp only [aliasMapKeys, getAliasNodeMap, dictSet_keys] at hnd hmem ⊢
      split_ifs with h
      · refine ⟨hnd, fun a => (hmem a).trans ?_⟩
        simp only [aliases, individualNodes, List.map_append, List.mem_append]
        exact ⟨Or.inl, fun ha => ha.elim id fun ha => by
          rw [List.map_cons, List.map_nil, List.mem_singleton] at ha
          exact ha ▸ (hmem _).mp h⟩
      · refine ⟨hnd.append (List.nodup_singleton _) (List.disjoint_singleton.mpr h), fun a => ?_⟩
        simp only [aliases, individualNodes, List.map_append, List.mem_append] at hmem ⊢
        rw [hmem]
        simp

/-- When the aliases of the tree are distinct, the alias map lists every
individual node under its own alias, innermost first. -/
theorem getAliasNodeMap_of_nodup : ∀ j : JoinClause, j.aliases.Nodup →
    j.getAliasNodeMap = j.individualNodes.map fun n => (n.tableAlias, n)
  | ⟨.inl n, r, _, _⟩, h => by
      have hne : r.tableAlias ∉ [(n.tableAlias, n)].map Prod.fst := by
        simpa [aliases, individualNodes, eq_comm] using h
      simp only [getAliasNodeMap, dictSet_of_not_mem r hne]
      rfl
  | ⟨.inr c, r, _, _⟩, h => by
      simp only [aliases, individualNodes, List.map_append, List.nodup_append] at h
      obtain ⟨hc, -, hr⟩ := h
      have ih := getAliasNodeMap_of_nodup c hc
      have hnot : r.tableAlias ∉ c.getAliasNodeMap.map Prod.fst := by
        rw [ih, List.map_map]
        simpa [List.disjoint_singleton] using hr
      show dictSet c.getAliasNodeMap r.tableAlias r = _
      rw [dictSet_of_not_mem r hnot, ih]
      simp [individualNodes]

end JoinClause


/-! ## One data source -/

/-- The context passes every check population makes: both times parse, the
rollup is valid, and the limit and the offset are in range. -/
structure ContextValid (services : Services) (ctx : MQLContext) : Prop where
  startParses : ∃ t, services.parseDatetime ctx.start = some t
  endParses : ∃ t, services.parseDatetime ctx.«end» = some t
  rollupValid : validateRollup ctx.rollup = .ok ()
  limitValid : ∃ l, limitValue ctx = .ok l
  offsetValid : ∃ o, offsetValue ctx = .ok o

/-- The interval of the time bucket, when the rollup asks for one. -/
def timeBucket (ctx : MQLContext) : Option Int :=
  ctx.rollup.interval.filter (· ≠ 0)

/-- The time bucket of an alias, as the select list names it. -/
def selectedTimeColumn (interval : Int) (tableAlias : Option String) : SelectedExpression :=
  ⟨some "time", timeExpression interval tableAlias⟩

/-- The order by `rollup_expressions` gives the data source with alias `a`:
its time bucket ascending, or else the aggregate in the requested direction. -/
def rollupOrderBy (ctx : MQLContext) (a : Option String) : Option OrderBy :=
  match timeBucket ctx with
  | some i => some ⟨.asc, timeExpression i a⟩
  | none => ctx.rollup.orderby.map fun o =>
      ⟨if o = "ASC" then .asc else .desc, .column none none aggregateAlias⟩

/-- Whether a data source orders the plan does not depend on its alias, so the
last source's order by replaces every earlier one. -/
theorem rollupOrderBy_elim_elim (ctx : MQLContext) (a b : Option String) (ob : List OrderBy) :
    (rollupOrderBy ctx b).elim ((rollupOrderBy ctx a).elim ob fun o => [o]) (fun o => [o]) =
      (rollupOrderBy ctx b).elim ob fun o => [o] := by
  unfold rollupOrderBy
  rcases timeBucket ctx with _ | i
  · cases ctx.rollup.orderby <;> rfl
  · rfl

/-- The granularity condition of a data source. -/
def granularityCondition (ctx : MQLContext) (tableAlias : Option String) : Expression :=
  binaryCondition "equals" (.column none tableAlias "granularity")
    (.literal none (.num ctx.rollup.granularity))

/-- What the rollup does to the plan of the data source with alias `a`, totals
apart: the time bucket selected and grouped by, and the order by replaced when
the rollup orders. -/
def Query.withRollup (q : Query) (ctx : MQLContext) (a : Option String) : Query :=
  { q with
    selectedColumns := q.selectedColumns ++ ((timeBucket ctx).map (selectedTimeColumn · a)).toList
    groupby := q.groupby ++ ((timeBucket ctx).map (timeExpression · a)).toList
    orderBy := (rollupOrderBy ctx a).elim q.orderBy fun o => [o] }

theorem scopeConditions_ok (ctx : MQLContext) (a : Option String) :
    ∃ s, scopeConditions ctx a = .ok s :=
  combineAndConditions_ok _ _

/-- `rollup_expressions` returns the granularity condition, the totals flag,
the order by and the time bucket of the alias, once the rollup is valid. -/
theorem rollupExpressions_eq (ctx : MQLContext) (a : Option String) :
    rollupExpressions ctx a = (validateRollup ctx.rollup).map fun _ =>
      (granularityCondition ctx a, decide (ctx.rollup.withTotals = some "True"),
        rollupOrderBy ctx a, (timeBucket ctx).map (selectedTimeColumn · a)) := by
  dsimp only [rollupExpressions]
  cases validateRollup ctx.rollup with
  | error e => rfl
  | ok u =>
      unfold rollupOrderBy
      rw [show ctx.rollup.interval.filter (· ≠ 0) = timeBucket ctx from rfl]
      rcases timeBucket ctx with _ | i
      · cases ctx.rollup.orderby <;> rfl
      · rfl

/-- One iteration of the loop: the source's context condition conjoined, the
rollup's bucket and order by, and totals. -/
theorem populateSource_eq (services : Services) (ctx : MQLContext) (q : Query) (found : Bool)
    (s : EntityKey × Option String) :
    populateSource services ctx q found s = (contextCondition services ctx s.1 s.2 >>= fun c =>
      (validateRollup ctx.rollup).map fun _ =>
        ({ (q.addConditionToAst c).withRollup ctx s.2 with
            totals := decide (ctx.rollup.withTotals = some "True") },
          found || (timeBucket ctx).isSome)) := by
  unfold populateSource
  rw [rollupExpressions_eq]
  cases contextCondition services ctx s.1 s.2 with
  | error e => rfl
  | ok c =>
      cases validateRollup ctx.rollup with
      | error e => rfl
      | ok u =>
          simp only [ok_bind, Except.map, Query.withRollup]
          rcases timeBucket ctx with _ | i <;> rcases rollupOrderBy ctx s.2 with _ | o <;>
            simp [selectedTimeColumn]

section Valid

variable {services : Services} {ctx : MQLContext}

theorem rollupExpressions_ok (h : validateRollup ctx.rollup = .ok ()) (a : Option String) :
    ∃ g, rollupExpressions ctx a = .ok (g, decide (ctx.rollup.withTotals = some "True"),
      rollupOrderBy ctx a, (timeBucket ctx).map (selectedTimeColumn · a)) := by
  dsimp only [rollupExpressions]
  rw [h, ok_bind]
  unfold rollupOrderBy
  rcases hb : timeBucket ctx with _ | i <;> unfold timeBucket at hb <;> simp only [hb]
  · cases ctx.rollup.orderby <;> exact ⟨_, rfl⟩
  · exact ⟨_, rfl⟩

theorem contextCondition_ok (hvalid : ContextValid services ctx) (k : EntityKey)
    (a : Option String) : ∃ c, contextCondition services ctx k a = .ok c := by
  obtain ⟨s, hs⟩ := hvalid.startParses
  obtain ⟨e, he⟩ := hvalid.endParses
  obtain ⟨g, hr⟩ := rollupExpressions_ok hvalid.rollupValid a
  obtain ⟨ct, hct⟩ := combineAndConditions_ok
    (binaryCondition "greaterOrEquals" (.column none a
      ((truthy (services.requiredTimeColumn k)).getD "timestamp")) (.literal none (.datetime s)))
    [binaryCondition "less" (.column none a
      ((truthy (services.requiredTimeColumn k)).getD "timestamp")) (.literal none (.datetime e))]
  obtain ⟨cs, hcs⟩ := combineAndConditions_ok
    (binaryCondition "in" (.column none a "project_id")
      (.functionCall none "tuple" (ctx.scope.projectIds.map fun (p : Int) => .literal none (.num p))))
    [binaryCondition "in" (.column none a "org_id")
      (.functionCall none "tuple" (ctx.scope.orgIds.map fun (o : Int) => .literal none (.num o))),
     binaryCondition "equals" (.column none a "use_case_id")
      (.literal none (.str ctx.scope.useCaseId))]
  exact ⟨binaryCondition "and" ct (binaryCondition "and" cs g), by
    simp [contextCondition, startEndTimeCondition, scopeConditions, hs, he, hct, hcs, hr,
      Except.map]⟩

theorem populateSource_spec (hvalid : ContextValid services ctx) (q : Query) (found : Bool)
    (s : EntityKey × Option String) :
    ∃ c q', contextCondition services ctx s.1 s.2 = .ok c ∧
      populateSource services ctx q found s = .ok (q', found || (timeBucket ctx).isSome) ∧
      q'.condition = some (q.condition.elim c (binaryCondition "and" c)) ∧
      q'.fromClause = q.fromClause ∧
      q'.selectedColumns = q.selectedColumns ++ ((timeBucket ctx).map (selectedTimeColumn · s.2)).toList ∧
      q'.groupby = q.groupby ++ ((timeBucket ctx).map (timeExpression · s.2)).toList := by
  obtain ⟨c, hc⟩ := contextCondition_ok hvalid s.1 s.2
  obtain ⟨g, hr⟩ := rollupExpressions_ok hvalid.rollupValid s.2
  refine ⟨c, ?_⟩
  simp only [populateSource, hc, hr, ok_bind]
  rcases timeBucket ctx with _ | i <;> rcases rollupOrderBy ctx s.2 with _ | o <;>
    simp [selectedTimeColumn]

/-- One data source sets the plan's totals and the order by of its rollup,
and leaves the limit and the offset alone. -/
theorem populateSource_rollup (hvalid : ContextValid services ctx) {q q' : Query}
    {found found' : Bool} {s : EntityKey × Option String}
    (h : populateSource services ctx q found s = .ok (q', found')) :
    q'.totals = decide (ctx.rollup.withTotals = some "True") ∧
      q'.orderBy = (rollupOrderBy ctx s.2).elim q.orderBy (fun o => [o]) ∧
      q'.limit = q.limit ∧ q'.offset = q.offset := by
  obtain ⟨g, hr⟩ := rollupExpressions_ok hvalid.rollupValid s.2
  simp only [populateSource, hr, bind_eq_ok, ok_bind] at h
  obtain ⟨c, -, h⟩ := h
  revert h
  rcases rollupOrderBy ctx s.2 with _ | o <;>
    rcases (timeBucket ctx).map (selectedTimeColumn · s.2) with _ | time <;>
    simp only [pure_eq_ok, Except.ok.injEq, Prod.mk.injEq] <;> rintro ⟨rfl, -⟩ <;> simp

/-- The loop over the data sources: each source's context condition is
conjoined in front of the condition so far, and with a time bucket each
source's bucket is appended to the select list and the group by. -/
theorem populateSources_spec (hvalid : ContextValid services ctx) :
    ∀ (sources : List (EntityKey × Option String)) (q : Query) (found : Bool),
    ∃ cs q', sources.mapM (fun s => contextCondition services ctx s.1 s.2) = .ok cs ∧
      populateSources services ctx sources q found =
        .ok (q', found || (!sources.isEmpty && (timeBucket ctx).isSome)) ∧
      q'.condition = cs.foldl (fun acc c => some (acc.elim c (binaryCondition "and" c))) q.condition ∧
      q'.fromClause = q.fromClause ∧
      q'.selectedColumns = q.selectedColumns ++
        sources.flatMap (fun s => ((timeBucket ctx).map (selectedTimeColumn · s.2)).toList) ∧
      q'.groupby = q.groupby ++
        sources.flatMap (fun s => ((timeBucket ctx).map (timeExpression · s.2)).toList)
  | [], q, found => ⟨[], q, rfl, by simp [populateSources], rfl, rfl, by simp, by simp⟩
  | s :: sources, q, found => by
      obtain ⟨c, q₁, hc, hq₁, hcond, hfrom, hsel, hgb⟩ := populateSource_spec hvalid q found s
      obtain ⟨cs, q', hcs, hq', hcond', hfrom', hsel', hgb'⟩ :=
        populateSources_spec hvalid sources q₁ (found || (timeBucket ctx).isSome)
      refine ⟨c :: cs, q', ?_, ?_, ?_, hfrom'.trans hfrom, ?_, ?_⟩
      · rw [List.mapM_cons, hc, hcs]
        rfl
      · rw [populateSources, hq₁, ok_bind]
        dsimp only
        rw [hq']
        cases found <;> cases (timeBucket ctx).isSome <;> simp
      · rw [hcond', hcond]
        rfl
      · simp [hsel', hsel]
      · simp [hgb', hgb]

/-- The loop over the data sources sets the totals and, when the rollup orders,
the order by of the last source; it leaves the limit and the offset alone. -/
theorem populateSources_rollup (hvalid : ContextValid services ctx) :
    ∀ (sources : List (EntityKey × Option String)) (q : Query) (found : Bool) {q' : Query}
      {found' : Bool}, populateSources services ctx sources q found = .ok (q', found') →
    q'.totals = (if sources = [] then q.totals else decide (ctx.rollup.withTotals = some "True")) ∧
      q'.orderBy = (sources.getLast?.bind fun s => rollupOrderBy ctx s.2).elim q.orderBy
        (fun o => [o]) ∧
      q'.limit = q.limit ∧ q'.offset = q.offset
  | [], q, found, q', found', h => by
      cases h; exact ⟨rfl, rfl, rfl, rfl⟩
  | s :: sources, q, found, q', found', h => by
      rw [populateSources, bind_eq_ok] at h
      obtain ⟨⟨q₁, found₁⟩, h₁, h⟩ := h
      obtain ⟨ht₁, ho₁, hl₁, hf₁⟩ := populateSource_rollup hvalid h₁
      obtain ⟨ht, ho, hl, hf⟩ := populateSources_rollup hvalid sources q₁ found₁ h
      refine ⟨?_, ?_, hl.trans hl₁, hf.trans hf₁⟩
      · rw [ht, ht₁, if_neg (List.cons_ne_nil s sources)]
        split_ifs <;> rfl
      · rw [ho, ho₁]
        rcases sources with _ | ⟨t, ts⟩
        · rfl
        · obtain ⟨last, hlast⟩ : ∃ last, (t :: ts).getLast? = some last :=
            ⟨_, List.getLast?_eq_getLast _ (List.cons_ne_nil t ts)⟩
          rw [List.getLast?_cons_cons, hlast, Option.some_bind, rollupOrderBy_elim_elim]

end Valid

/-- The time keys of the fix-up of a join: the base alias's `time` equals the
`time` of every other key of the alias map. -/
def JoinClause.timeKeys (j : JoinClause) : List JoinCondition :=
  (j.aliasMapKeys.filter (· ≠ j.rightNode.tableAlias)).map fun a =>
    ⟨⟨j.rightNode.tableAlias, "time"⟩, ⟨a, "time"⟩⟩

theorem timeJoinKeys_eq (base : String) : ∀ m : List (String × IndividualNode),
    timeJoinKeys base (m.map fun p => (p.2.dataSource.key, some p.1)) =
      .ok (((m.map Prod.fst).filter (· ≠ base)).map fun a => ⟨⟨base, "time"⟩, ⟨a, "time"⟩⟩)
  | [] => rfl
  | p :: m => by
      have ih := timeJoinKeys_eq base m
      unfold timeJoinKeys at ih ⊢
      simp only [ne_eq, decide_not] at ih
      by_cases h : p.1 = base
      · simpa [List.filter_cons, h] using ih
      · simp [List.filter_cons, h, List.mapM_cons, ih, -List.mapM]

/-- `entity_data` of a join lists the alias map's items. -/
theorem joinTimeFixup_eq {q : Query} {j : JoinClause} (hj : q.fromClause = .join j) :
    joinTimeFixup q (entityData q) =
      .ok { q with fromClause := .join { j with keys := j.keys ++ j.timeKeys } } := by
  simp only [joinTimeFixup, entityData, hj, timeJoinKeys_eq, JoinClause.timeKeys,
    JoinClause.aliasMapKeys, ok_bind]
  rfl

/-- The from clause after the time fix-up: a join gains its time keys after
its own top-level keys. -/
def FromClause.withTimeKeys : FromClause → FromClause
  | .join j => .join { j with keys := j.keys ++ j.timeKeys }
  | .entity e => .entity e

/-- The fix-up leaves the entity of a logical plan alone. -/
theorem FromClause.withTimeKeys_of_isLogical {q : Query} (h : q.isLogical = true) :
    q.fromClause.withTimeKeys = q.fromClause := by
  unfold Query.isLogical at h
  split at h
  · next e he => rw [he]; rfl
  · cases h

theorem JoinClause.rightNode_mem_individualNodes (j : JoinClause) :
    j.rightNode ∈ j.individualNodes := by
  obtain ⟨_ | _, r, _, _⟩ := j <;> simp [JoinClause.individualNodes]

theorem entityData_isEmpty (q : Query) : (entityData q).isEmpty = false := by
  unfold entityData
  split
  · rfl
  · next j _ =>
      obtain ⟨-, hmem⟩ := j.aliasMapKeys_spec
      have hr := (hmem _).mpr (List.mem_map_of_mem _ j.rightNode_mem_individualNodes)
      rw [JoinClause.aliasMapKeys] at hr
      cases h : j.getAliasNodeMap with
      | nil => simp [h] at hr
      | cons _ _ => rfl

/-- The step after the loop changes the from clause alone: with a time
bucket, a join gets its time keys. -/
theorem timeFixup_eq (q : Query) (found : Bool) :
    (if !q.isLogical && found then joinTimeFixup q (entityData q) else pure q) =
      .ok { q with fromClause := if found then q.fromClause.withTimeKeys else q.fromClause } := by
  obtain ⟨e | j, sc, c, gb, ob, l, o, t⟩ := q
  · cases found <;> rfl
  · cases found
    · rfl
    · exact joinTimeFixup_eq (q := ⟨.join j, sc, c, gb, ob, l, o, t⟩) rfl

section Valid

variable {services : Services} {ctx : MQLContext}

/-- Population after the loop over the data sources: the time fix-up, then
the limit and, unless it is zero, the offset. -/
theorem populateQueryFromMqlContext_of_sources {P q : Query} {found : Bool} {l : Int}
    {o : Option Int} (hq : populateSources services ctx (entityData P) P false = .ok (q, found))
    (hdata : entityData q = entityData P) (hl : limitValue ctx = .ok l)
    (ho : offsetValue ctx = .ok o) :
    populateQueryFromMqlContext services P ctx =
      .ok ({ q with
        fromClause := if found then q.fromClause.withTimeKeys else q.fromClause
        limit := some l
        offset := o.getD q.offset }, ctx) := by
  have hfix := timeFixup_eq q found
  rw [hdata] at hfix
  unfold populateQueryFromMqlContext
  dsimp only
  rw [hq, ok_bind]
  dsimp only
  split_ifs at hfix ⊢ <;> rw [hfix, ok_bind, hl, ok_bind, ho, ok_bind] <;> cases o <;> rfl

/-- Population under a valid context: every source's context condition is
conjoined in front of the plan's condition, each source's time bucket is
selected and grouped by, and a join gets its time keys. -/
theorem populateQueryFromMqlContext_spec (hvalid : ContextValid services ctx) (P : Query) :
    ∃ cs P', (entityData P).mapM (fun s => contextCondition services ctx s.1 s.2) = .ok cs ∧
      populateQueryFromMqlContext services P ctx = .ok (P', ctx) ∧
      P'.condition = cs.foldl (fun acc c => some (acc.elim c (binaryCondition "and" c))) P.condition ∧
      P'.selectedColumns = P.selectedColumns ++
        (entityData P).flatMap (fun s => ((timeBucket ctx).map (selectedTimeColumn · s.2)).toList) ∧
      P'.groupby = P.groupby ++
        (entityData P).flatMap (fun s => ((timeBucket ctx).map (timeExpression · s.2)).toList) ∧
      P'.fromClause =
        if (timeBucket ctx).isSome then P.fromClause.withTimeKeys else P.fromClause := by
  obtain ⟨cs, q, hcs, hq, hcond, hfrom, hsel, hgb⟩ := populateSources_spec hvalid (entityData P) P false
  have hdata : entityData q = entityData P := by simp only [entityData, hfrom]
  obtain ⟨l, hl⟩ := hvalid.limitValid
  obtain ⟨o, ho⟩ := hvalid.offsetValid
  refine ⟨cs, _, hcs, populateQueryFromMqlContext_of_sources hq hdata hl ho, hcond, hsel, hgb, ?_⟩
  simp [hfrom, entityData_isEmpty]

end Valid

/-! ## Plans compiled from MQL -/

/-- A plan compiled from MQL has a condition, and the aliases of its join, if
it has one, are distinct. -/
theorem parseMqlQueryBody_plan {body : String} {t : MqlExpression} {dataset : Dataset}
    {P : Query} (h : parseMqlQueryBody body (.tree t) dataset = .ok P) :
    (∃ c₀, P.condition = some c₀) ∧ ∀ j, P.fromClause = .join j → j.aliases.Nodup := by
  simp only [parseMqlQueryBody] at h
  cases hv : visitMql t with
  | error e => simp [hv] at h
  | ok rv =>
      obtain ⟨r, v⟩ := rv
      simp only [hv, ok_bind] at h
      rcases r with parsed | x
      · have hleaves := (visitMql_issues hv).2.2.2.2
        dsimp only at h
        split_ifs at h
        · obtain ⟨hc, q, nodes, hq, hfrom⟩ := convertFormulaToQuery_plan h
          exact ⟨hc, fun j hj =>
            buildFormulaQueryFromClause_aliases_nodup hleaves hq (hfrom ▸ hj)⟩
        · obtain ⟨hc, e, he⟩ := convertTimeseriesToQuery_plan h
          exact ⟨hc, fun j hj => by rw [he] at hj; cases hj⟩
      · cases h

/-- The data sources of a plan: its entity with no table qualifier, or every
individual node of its join under its own alias. -/
def Query.dataSources (q : Query) : List (EntityKey × Option String) :=
  match q.fromClause with
  | .entity e => [(e.key, none)]
  | .join j => j.individualNodes.map fun n => (n.dataSource.key, some n.tableAlias)

/-- With distinct aliases, `entity_data` lists exactly the data sources. -/
theorem entityData_eq_dataSources {P : Query}
    (h : ∀ j, P.fromClause = .join j → j.aliases.Nodup) : entityData P = P.dataSources := by
  unfold entityData Query.dataSources
  cases hfrom : P.fromClause with
  | entity e => rfl
  | join j => simp [JoinClause.getAliasNodeMap_of_nodup j (h j hfrom)]

theorem foldl_conjoin_some (cs : List Expression) (c₀ : Expression) :
    cs.foldl (fun acc c => some (acc.elim c (binaryCondition "and" c))) (some c₀) =
      some (cs.foldl (fun acc c => binaryCondition "and" c acc) c₀) := by
  induction cs generalizing c₀ with
  | nil => rfl
  | cons c cs ih => exact ih _

/-- Conjoining conditions in front of `c₀` removes nothing: the result holds
where `c₀` and every conjoined condition hold. -/
theorem foldl_conjoin_holds (row : Row) (cs : List Expression) (c₀ : Expression) :
    (cs.foldl (fun acc c => binaryCondition "and" c acc) c₀).holds row =
      (c₀.holds row && Expression.holdsAll row cs) := by
  induction cs generalizing c₀ with
  | nil => simp
  | cons c cs ih =>
      rw [List.foldl_cons, ih]
      simp [binaryCondition, Bool.and_left_comm, Bool.and_assoc]

/-! ## Population, end to end -/

/-- Collaborators that parse every timestamp to the epoch and know no required
time column. -/
def epochServices : Services := ⟨fun _ => some ⟨0⟩, fun _ => none⟩

/-- One hour of data at minute granularity, bucketed by minute. -/
def minuteContext : MQLContext :=
  ⟨"2024-01-01T00:00:00", "2024-01-01T01:00:00", ⟨60, some 60, none, none⟩,
    ⟨[1], [2], "transactions"⟩, none, none⟩

/-- The minute context, asking besides to order by the aggregate. -/
def orderedMinuteContext : MQLContext :=
  { minuteContext with rollup := ⟨60, some 60, none, some "ASC"⟩ }

/-- Population rejects a context that orders by the aggregate and buckets by
time, so it returns no plan for it. -/
theorem populateQueryFromMqlContext_orderedMinute :
    ∃ P, parseMqlQueryBody "sum(d:transactions/a@none) + sum(d:transactions/b@none)" (.tree sumDaPlusSumDb) ⟨"generic_metrics"⟩ = .ok P ∧
      populateQueryFromMqlContext epochServices P orderedMinuteContext =
        .error (.parsing "orderby is not supported when interval is specified") :=
  ⟨_, rfl, rfl⟩

/-- Population of a join under a context with a time bucket: every alias of
the join, each once, gets its bucket in the select list and the group by, and
the join's top-level keys gain, after the original ones, one key
`base.time = a.time` for every alias `a` other than the base, the alias of the
top-level right node; nested joins are unchanged. Without a bucket, or for a
single-source plan, the from clause is unchanged. -/
theorem populateQueryFromMqlContext_timeJoin (services : Services) {ctx : MQLContext}
    (hvalid : ContextValid services ctx) (P : Query) :
    ∃ P', populateQueryFromMqlContext services P ctx = .ok (P', ctx) ∧
      (∀ j i, P.fromClause = .join j → timeBucket ctx = some i →
        j.aliasMapKeys.Nodup ∧ (∀ a, a ∈ j.aliasMapKeys ↔ a ∈ j.aliases) ∧
        P'.selectedColumns = P.selectedColumns ++ j.aliasMapKeys.map (selectedTimeColumn i ∘ some) ∧
        P'.groupby = P.groupby ++ j.aliasMapKeys.map (timeExpression i ∘ some) ∧
        P'.fromClause = .join { j with keys := j.keys ++
          (j.aliasMapKeys.filter (· ≠ j.rightNode.tableAlias)).map fun a =>
            ⟨⟨j.rightNode.tableAlias, "time"⟩, ⟨a, "time"⟩⟩ }) ∧
      (timeBucket ctx = none ∨ P.isLogical = true → P'.fromClause = P.fromClause) := by
  obtain ⟨cs, P', -, hpop, -, hsel, hgb, hfrom⟩ := populateQueryFromMqlContext_spec hvalid P
  refine ⟨P', hpop, fun j i hj hi => ?_, fun h => ?_⟩
  · obtain ⟨hnodup, hmem⟩ := j.aliasMapKeys_spec
    refine ⟨hnodup, hmem, ?_, ?_, ?_⟩
    · simp [hsel, entityData, hj, hi, JoinClause.aliasMapKeys, ← List.map_eq_flatMap,
        Function.comp_def]
    · simp [hgb, entityData, hj, hi, JoinClause.aliasMapKeys, ← List.map_eq_flatMap,
        Function.comp_def]
    · simp [hfrom, hj, hi, FromClause.withTimeKeys, JoinClause.timeKeys]
  · rcases h with h | h
    · simp [hfrom, h]
    · rw [hfrom, FromClause.withTimeKeys_of_isLogical h, ite_self]

/-- The plan of a join of `d0` and `c0` on `x`. -/
def twoMetricPlan : Query :=
  { fromClause := .join (chainJoin ["x"] ⟨"d0", ⟨.genericMetricsDistributions⟩⟩
      ⟨"c0", ⟨.genericMetricsCounters⟩⟩ []) }

theorem populateQueryFromMqlContext_timeJoin_twoMetricPlan :
    ContextValid epochServices minuteContext ∧
    ∃ P', populateQueryFromMqlContext epochServices twoMetricPlan minuteContext =
        .ok (P', minuteContext) ∧
      (∀ j i, twoMetricPlan.fromClause = .join j → timeBucket minuteContext = some i →
        j.aliasMapKeys.Nodup ∧ (∀ a, a ∈ j.aliasMapKeys ↔ a ∈ j.aliases) ∧
        P'.selectedColumns =
          twoMetricPlan.selectedColumns ++ j.aliasMapKeys.map (selectedTimeColumn i ∘ some) ∧
        P'.groupby = twoMetricPlan.groupby ++ j.aliasMapKeys.map (timeExpression i ∘ some) ∧
        P'.fromClause = .join { j with keys := j.keys ++
          (j.aliasMapKeys.filter (· ≠ j.rightNode.tableAlias)).map fun a =>
            ⟨⟨j.rightNode.tableAlias, "time"⟩, ⟨a, "time"⟩⟩ }) ∧
      (timeBucket minuteContext = none ∨ twoMetricPlan.isLogical = true →
        P'.fromClause = twoMetricPlan.fromClause) :=
  ⟨⟨⟨_, rfl⟩, ⟨_, rfl⟩, rfl, ⟨_, rfl⟩, ⟨_, rfl⟩⟩,
    @populateQueryFromMqlContext_timeJoin epochServices minuteContext
      ⟨⟨_, rfl⟩, ⟨_, rfl⟩, rfl, ⟨_, rfl⟩, ⟨_, rfl⟩⟩ twoMetricPlan⟩

/-- Bucketing the plan of `d0` joined to `c0` adds the one key
`d0.time = c0.time`. -/
example : ∃ j, twoMetricPlan.fromClause = .join j ∧
    j.timeKeys = [⟨⟨"d0", "time"⟩, ⟨"c0", "time"⟩⟩] := ⟨_, rfl, rfl⟩

/-- Population under a valid context sets the totals the rollup asks for. When
the rollup orders, the order by is replaced: by the time bucket of the last
data source, ascending, or by the aggregate in the requested direction. The
limit is the context's, and the offset too unless it is zero. -/
theorem populateQueryFromMqlContext_rollup (services : Services) {ctx : MQLContext}
    (hvalid : ContextValid services ctx) (P : Query) :
    ∃ P' l o, populateQueryFromMqlContext services P ctx = .ok (P', ctx) ∧
      limitValue ctx = .ok l ∧ offsetValue ctx = .ok o ∧
      P'.totals = decide (ctx.rollup.withTotals = some "True") ∧
      P'.orderBy = ((entityData P).getLast?.bind fun s => rollupOrderBy ctx s.2).elim P.orderBy
        (fun o => [o]) ∧
      P'.limit = some l ∧ P'.offset = o.getD P.offset := by
  obtain ⟨-, q, -, hq, -, hfrom, -⟩ := populateSources_spec hvalid (entityData P) P false
  have hdata : entityData q = entityData P := by simp only [entityData, hfrom]
  obtain ⟨l, hl⟩ := hvalid.limitValid
  obtain ⟨o, ho⟩ := hvalid.offsetValid
  obtain ⟨ht, hob, -, hoff⟩ := populateSources_rollup hvalid (entityData P) P false hq
  have hne : entityData P ≠ [] := fun h => by simpa [h] using entityData_isEmpty P
  refine ⟨_, l, o, populateQueryFromMqlContext_of_sources hq hdata hl ho, hl, ho, ?_, hob, rfl, ?_⟩
  · exact ht.trans (if_neg hne)
  · simp only [hoff]

theorem populateQueryFromMqlContext_rollup_twoMetricPlan :
    ContextValid epochServices minuteContext ∧
    ∃ P' l o, populateQueryFromMqlContext epochServices twoMetricPlan minuteContext =
        .ok (P', minuteContext) ∧
      limitValue minuteContext = .ok l ∧ offsetValue minuteContext = .ok o ∧
      P'.totals = decide (minuteContext.rollup.withTotals = some "True") ∧
      P'.orderBy = ((entityData twoMetricPlan).getLast?.bind fun s =>
        rollupOrderBy minuteContext s.2).elim twoMetricPlan.orderBy (fun o => [o]) ∧
      P'.limit = some l ∧ P'.offset = o.getD twoMetricPlan.offset :=
  ⟨⟨⟨_, rfl⟩, ⟨_, rfl⟩, rfl, ⟨_, rfl⟩, ⟨_, rfl⟩⟩,
    @populateQueryFromMqlContext_rollup epochServices minuteContext
      ⟨⟨_, rfl⟩, ⟨_, rfl⟩, rfl, ⟨_, rfl⟩, ⟨_, rfl⟩⟩ twoMetricPlan⟩

/-- The bucketed plan of `d0` joined to `c0` is ordered by the time bucket of
`d0`, the last alias of its alias map. -/
example : ((entityData twoMetricPlan).getLast?.bind fun s => rollupOrderBy minuteContext s.2) =
    some ⟨.asc, timeExpression 60 (some "d0")⟩ := rfl

end SnubaMql
