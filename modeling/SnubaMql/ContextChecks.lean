import SnubaMql.Population

/-! # What population checks and what it adds

`populate_query_from_mql_context` checks the context as it goes: the times
must parse, the rollup must pass `populate_rollup`'s checks, the limit must be
at most 10000 and the offset not negative. These checks are all it rejects,
whatever the plan: it returns a plan exactly for the contexts of
`ContextValid` (`populateQueryFromMqlContext_ok_iff`), and raises a
`ParsingException` for the others (`populateQueryFromMqlContext_error_parsing`):
the assertions of the join fix-up never fail, since every source of a join has
an alias. On a plan compiled from MQL, the condition population returns holds
in a row exactly when the plan's own condition and the time range, scope and
granularity filters of every data source do
(`populateQueryFromMqlContext_condition`).
-/

namespace SnubaMql

/-- Every exception the computation can raise is a `ParsingException`. -/
def RaisesParsing {α : Type} (x : Except PyException α) : Prop :=
  ∀ e, x = .error e → ∃ m, e = .parsing m

namespace RaisesParsing

variable {α β : Type}

theorem of_ok {x : Except PyException α} (h : ∃ a, x = .ok a) : RaisesParsing x := by
  obtain ⟨a, rfl⟩ := h
  intro e h
  cases h

theorem parsing (m : String) : RaisesParsing (.error (.parsing m) : Except PyException α) :=
  fun _ h => ⟨m, (Except.error.inj h).symm⟩

theorem bind {x : Except PyException α} {f : α → Except PyException β}
    (hx : RaisesParsing x) (hf : ∀ a, x = .ok a → RaisesParsing (f a)) :
    RaisesParsing (x >>= f) := by
  intro e h
  rcases bind_eq_error.mp h with h | ⟨a, ha, h⟩
  · exact hx e h
  · exact hf a ha e h

end RaisesParsing

/-! ## Each check raises `ParsingException` -/

section Checks

variable (services : Services) (ctx : MQLContext)

theorem startEndTimeCondition_raisesParsing (k : EntityKey) (a : Option String) :
    RaisesParsing (startEndTimeCondition services ctx k a) := by
  unfold startEndTimeCondition
  split
  · exact .of_ok (combineAndConditions_ok _ _)
  · exact .parsing _

theorem validateRollup_raisesParsing : RaisesParsing (validateRollup ctx.rollup) := by
  unfold validateRollup
  split_ifs
  all_goals first | exact .parsing _ | exact .of_ok ⟨_, rfl⟩

theorem rollupExpressions_raisesParsing (a : Option String) :
    RaisesParsing (rollupExpressions ctx a) := by
  cases hv : validateRollup ctx.rollup with
  | ok u =>
      obtain ⟨g, h⟩ := rollupExpressions_ok hv a
      exact .of_ok ⟨_, h⟩
  | error e =>
      intro e' h
      dsimp only [rollupExpressions] at h
      rw [hv, error_bind] at h
      cases h
      exact validateRollup_raisesParsing ctx e hv

theorem contextCondition_raisesParsing (k : EntityKey) (a : Option String) :
    RaisesParsing (contextCondition services ctx k a) :=
  .bind (startEndTimeCondition_raisesParsing services ctx k a) fun _ _ =>
    .bind (.of_ok (combineAndConditions_ok _ _)) fun _ _ =>
      .bind (rollupExpressions_raisesParsing ctx a) fun _ _ =>
        .of_ok (combineAndConditions_ok _ _)

theorem populateSource_raisesParsing (q : Query) (found : Bool)
    (s : EntityKey × Option String) : RaisesParsing (populateSource services ctx q found s) :=
  .bind (contextCondition_raisesParsing services ctx s.1 s.2) fun _ _ =>
    .bind (rollupExpressions_raisesParsing ctx s.2) fun ⟨_, _, _, t⟩ _ =>
      .of_ok (by cases t <;> exact ⟨_, rfl⟩)

theorem populateSources_raisesParsing :
    ∀ (sources : List (EntityKey × Option String)) (q : Query) (found : Bool),
      RaisesParsing (populateSources services ctx sources q found)
  | [], _, _ => .of_ok ⟨_, rfl⟩
  | s :: sources, q, found =>
      .bind (populateSource_raisesParsing services ctx q found s) fun ⟨q', found'⟩ _ =>
        populateSources_raisesParsing sources q' found'

theorem limitValue_raisesParsing : RaisesParsing (limitValue ctx) := by
  unfold limitValue
  split
  · exact .of_ok ⟨_, rfl⟩
  · split_ifs
    · exact .parsing _
    · exact .of_ok ⟨_, rfl⟩

theorem offsetValue_raisesParsing : RaisesParsing (offsetValue ctx) := by
  unfold offsetValue
  split
  · exact .of_ok ⟨_, rfl⟩
  · split_ifs
    · exact .parsing _
    · exact .of_ok ⟨_, rfl⟩

end Checks

/-! ## What a successful run has checked -/

section Success

variable {services : Services} {ctx : MQLContext}

theorem populateSource_fromClause {q q' : Query} {found found' : Bool}
    {s : EntityKey × Option String}
    (h : populateSource services ctx q found s = .ok (q', found')) :
    q'.fromClause = q.fromClause := by
  simp only [populateSource, bind_eq_ok] at h
  obtain ⟨c, -, ⟨g, t, o, time⟩, -, h⟩ := h
  cases o <;> cases time <;> cases h <;> simp

theorem populateSources_fromClause :
    ∀ {sources : List (EntityKey × Option String)} {q q' : Query} {found found' : Bool},
      populateSources services ctx sources q found = .ok (q', found') →
      q'.fromClause = q.fromClause
  | [], _, _, _, _, h => by cases h; rfl
  | s :: sources, q, q', found, found', h => by
      simp only [populateSources, bind_eq_ok] at h
      obtain ⟨⟨q₁, found₁⟩, h₁, h⟩ := h
      exact (populateSources_fromClause h).trans (populateSource_fromClause h₁)

/-- A source that was populated had its times parsed and its rollup checked. -/
theorem contextCondition_ok_checked {k : EntityKey} {a : Option String} {c : Expression}
    (h : contextCondition services ctx k a = .ok c) :
    (∃ t, services.parseDatetime ctx.start = some t) ∧
      (∃ t, services.parseDatetime ctx.«end» = some t) ∧ validateRollup ctx.rollup = .ok () := by
  simp only [contextCondition, bind_eq_ok] at h
  obtain ⟨tc, ht, -, -, r, hr, -⟩ := h
  unfold startEndTimeCondition at ht
  split at ht
  · next s e hs he =>
      refine ⟨⟨s, hs⟩, ⟨e, he⟩, ?_⟩
      cases hv : validateRollup ctx.rollup with
      | ok u => rfl
      | error e =>
          dsimp only [rollupExpressions] at hr
          rw [hv, error_bind] at hr
          cases hr
  · cases ht

theorem populateSources_ok_checked {s : EntityKey × Option String}
    {sources : List (EntityKey × Option String)} {q q' : Query} {found found' : Bool}
    (h : populateSources services ctx (s :: sources) q found = .ok (q', found')) :
    (∃ t, services.parseDatetime ctx.start = some t) ∧
      (∃ t, services.parseDatetime ctx.«end» = some t) ∧ validateRollup ctx.rollup = .ok () := by
  simp only [populateSources, populateSource, bind_eq_ok] at h
  obtain ⟨-, ⟨c, hc, -⟩, -⟩ := h
  exact contextCondition_ok_checked hc

end Success

/-! ## The filters population adds -/

/-- A context condition is the time range, the scope and the granularity of
the source, conjoined. -/
theorem contextCondition_parts {services : Services} {ctx : MQLContext} {k : EntityKey}
    {a : Option String} {c : Expression} (h : contextCondition services ctx k a = .ok c) :
    ∃ t s, startEndTimeCondition services ctx k a = .ok t ∧ scopeConditions ctx a = .ok s ∧
      combineAndConditions [t, s, granularityCondition ctx a] = .ok c := by
  simp only [contextCondition, rollupExpressions_eq, bind_eq_ok] at h
  obtain ⟨t, ht, s, hs, r, hr, h⟩ := h
  refine ⟨t, s, ht, hs, ?_⟩
  revert hr
  cases validateRollup ctx.rollup <;> rintro ⟨⟩
  exact h

/-- The conjuncts of the context condition of the data source with entity `k`
and alias `a`: the time range `[start, stop)` on the entity's time column, the
project, organisation and use case of the scope, and the granularity. -/
def contextConjuncts (services : Services) (ctx : MQLContext) (k : EntityKey)
    (a : Option String) (start stop : Datetime) : List Expression :=
  let column := (truthy (services.requiredTimeColumn k)).getD "timestamp"
  [binaryCondition "greaterOrEquals" (.column none a column) (.literal none (.datetime start)),
   binaryCondition "less" (.column none a column) (.literal none (.datetime stop)),
   binaryCondition "in" (.column none a "project_id")
    (.functionCall none "tuple" (ctx.scope.projectIds.map fun (p : Int) => .literal none (.num p))),
   binaryCondition "in" (.column none a "org_id")
    (.functionCall none "tuple" (ctx.scope.orgIds.map fun (o : Int) => .literal none (.num o))),
   binaryCondition "equals" (.column none a "use_case_id") (.literal none (.str ctx.scope.useCaseId)),
   granularityCondition ctx a]

theorem contextCondition_conjuncts {services : Services} {ctx : MQLContext} {k : EntityKey}
    {a : Option String} {c : Expression} (h : contextCondition services ctx k a = .ok c) :
    ∃ start stop, services.parseDatetime ctx.start = some start ∧
      services.parseDatetime ctx.«end» = some stop ∧
      c.conjuncts = contextConjuncts services ctx k a start stop := by
  obtain ⟨t, s, ht, hs, h⟩ := contextCondition_parts h
  unfold startEndTimeCondition at ht
  split at ht
  · next start stop hstart hstop =>
      refine ⟨start, stop, hstart, hstop, ?_⟩
      simp only [scopeConditions, combineAndConditions_cons_cons, combineAndConditions_singleton,
        Except.map, Except.ok.injEq] at ht hs h
      subst ht hs h
      simp [Expression.conjuncts, binaryCondition, granularityCondition, contextConjuncts]
  · cases ht

/-- The context conditions of the data sources hold in a row exactly when
every source's filters do. -/
theorem mapM_contextCondition_holdsAll {services : Services} {ctx : MQLContext}
    {start stop : Datetime} (hstart : services.parseDatetime ctx.start = some start)
    (hstop : services.parseDatetime ctx.«end» = some stop) (row : Row) :
    ∀ {sources : List (EntityKey × Option String)} {cs : List Expression},
      sources.mapM (fun s => contextCondition services ctx s.1 s.2) = .ok cs →
      Expression.holdsAll row cs = sources.all fun s =>
        (contextConjuncts services ctx s.1 s.2 start stop).all (Expression.holds row)
  | [], cs, h => by cases h; rfl
  | s :: sources, cs, h => by
      simp only [List.mapM_cons, bind_eq_ok, pure_eq_ok, Except.ok.injEq] at h
      obtain ⟨c, hc, cs', hcs', rfl⟩ := h
      obtain ⟨start', stop', hstart', hstop', hconj⟩ := contextCondition_conjuncts hc
      cases hstart.symm.trans hstart'
      cases hstop.symm.trans hstop'
      rw [Expression.holdsAll_cons, holds_eq_all_conjuncts, hconj,
        mapM_contextCondition_holdsAll hstart hstop row hcs', List.all_cons]

/-! ## Population rejects exactly the invalid contexts -/

/-- Population returns a plan only for a context that passes its checks. -/
theorem populateQueryFromMqlContext_valid {services : Services} {P : Query} {ctx : MQLContext}
    {r : Query × MQLContext} (h : populateQueryFromMqlContext services P ctx = .ok r) :
    ContextValid services ctx := by
  unfold populateQueryFromMqlContext at h
  dsimp only at h
  rw [bind_eq_ok] at h
  obtain ⟨⟨q, found⟩, hq, h⟩ := h
  dsimp only at h
  obtain ⟨l, hl, o, ho⟩ : ∃ l, limitValue ctx = .ok l ∧ ∃ o, offsetValue ctx = .ok o := by
    split_ifs at h <;> simp only [bind_eq_ok] at h <;> obtain ⟨-, -, l, hl, o, ho, -⟩ := h <;>
      exact ⟨l, hl, o, ho⟩
  obtain ⟨s, sources, hdata⟩ := List.exists_cons_of_ne_nil
    (by simpa [List.isEmpty_iff] using entityData_isEmpty P)
  rw [hdata] at hq
  obtain ⟨hs, he, hr⟩ := populateSources_ok_checked hq
  exact ⟨hs, he, hr, ⟨l, hl⟩, ⟨o, ho⟩⟩

/-- Population returns a plan exactly for the contexts that pass its checks,
whatever the plan. -/
theorem populateQueryFromMqlContext_ok_iff (services : Services) (P : Query) (ctx : MQLContext) :
    (∃ r, populateQueryFromMqlContext services P ctx = .ok r) ↔ ContextValid services ctx :=
  ⟨fun ⟨_, h⟩ => populateQueryFromMqlContext_valid h, fun hvalid => by
    obtain ⟨-, P', -, h, -⟩ := populateQueryFromMqlContext_spec hvalid P
    exact ⟨_, h⟩⟩

/-- No assertion of the join fix-up fails: population raises only
`ParsingException`. -/
theorem populateQueryFromMqlContext_raisesParsing (services : Services) (P : Query)
    (ctx : MQLContext) : RaisesParsing (populateQueryFromMqlContext services P ctx) := by
  refine RaisesParsing.bind (populateSources_raisesParsing services ctx _ P false)
    fun ⟨q, found⟩ hq => ?_
  dsimp only
  have hfrom := populateSources_fromClause hq
  split_ifs with hjoin
  all_goals
    refine .bind ?_ fun _ _ => .bind (limitValue_raisesParsing ctx) fun _ _ =>
      .bind (offsetValue_raisesParsing ctx) fun _ _ => .of_ok ⟨_, rfl⟩
  · cases hj : q.fromClause with
    | entity e => simp [Query.isLogical, hj] at hjoin
    | join j =>
        have hdata : entityData P = entityData q := by simp only [entityData, hfrom]
        rw [hdata, joinTimeFixup_eq hj]
        exact .of_ok ⟨_, rfl⟩
  · exact .of_ok ⟨_, rfl⟩

/-- Every exception population raises is a `ParsingException`: no assertion
of the join fix-up fails, for any plan and any context. -/
theorem populateQueryFromMqlContext_error_parsing (services : Services) (P : Query)
    (ctx : MQLContext) (e : PyException)
    (h : populateQueryFromMqlContext services P ctx = .error e) : ∃ m, e = .parsing m :=
  populateQueryFromMqlContext_raisesParsing services P ctx e h

theorem populateQueryFromMqlContext_error_parsing_orderedMinute :
    populateQueryFromMqlContext epochServices twoMetricPlan orderedMinuteContext =
        .error (.parsing "orderby is not supported when interval is specified") ∧
      ∃ m, PyException.parsing "orderby is not supported when interval is specified" =
        .parsing m :=
  ⟨rfl, populateQueryFromMqlContext_error_parsing epochServices twoMetricPlan
    orderedMinuteContext _ rfl⟩

/-! ## The condition of a populated plan -/

/-- For every plan compiled from MQL and every context: when the context
passes population's checks, population returns a plan whose condition is the
plan's condition with the context condition of every data source conjoined in
front, and that condition holds in a row exactly when the plan's condition and
every source's time range, scope and granularity filters do. The data sources
are the entity, unqualified, of a single-source plan, and every individual node
of a join, under its own alias. A context that fails the checks raises a
`ParsingException`. -/
theorem populateQueryFromMqlContext_condition {body : String} {t : MqlExpression}
    {dataset : Dataset} {P : Query} (hP : parseMqlQueryBody body (.tree t) dataset = .ok P)
    (services : Services) (ctx : MQLContext) :
    (ContextValid services ctx →
      ∃ c₀ cs P' start stop, P.condition = some c₀ ∧ entityData P = P.dataSources ∧
        P.dataSources.mapM (fun s => contextCondition services ctx s.1 s.2) = .ok cs ∧
        populateQueryFromMqlContext services P ctx = .ok (P', ctx) ∧
        P'.condition = some (cs.foldl (fun acc c => binaryCondition "and" c acc) c₀) ∧
        services.parseDatetime ctx.start = some start ∧
        services.parseDatetime ctx.«end» = some stop ∧
        ∀ row, (cs.foldl (fun acc c => binaryCondition "and" c acc) c₀).holds row =
          (c₀.holds row && P.dataSources.all fun s =>
            (contextConjuncts services ctx s.1 s.2 start stop).all (Expression.holds row))) ∧
    (¬ContextValid services ctx →
      ∃ m, populateQueryFromMqlContext services P ctx = .error (.parsing m)) := by
  refine ⟨fun hvalid => ?_, fun hinvalid => ?_⟩
  · obtain ⟨⟨c₀, hc₀⟩, hnodup⟩ := parseMqlQueryBody_plan hP
    have hdata := entityData_eq_dataSources hnodup
    obtain ⟨cs, P', hcs, hpop, hcond, -⟩ := populateQueryFromMqlContext_spec hvalid P
    obtain ⟨⟨start, hstart⟩, ⟨stop, hstop⟩, -⟩ := hvalid
    refine ⟨c₀, cs, P', start, stop, hc₀, hdata, hdata ▸ hcs, hpop,
      by rw [hcond, hc₀, foldl_conjoin_some], hstart, hstop, fun row => ?_⟩
    rw [foldl_conjoin_holds, mapM_contextCondition_holdsAll hstart hstop row (hdata ▸ hcs)]
  · cases h : populateQueryFromMqlContext services P ctx with
    | ok r => exact absurd (populateQueryFromMqlContext_valid h) hinvalid
    | error e =>
        obtain ⟨m, rfl⟩ := populateQueryFromMqlContext_raisesParsing services P ctx e h
        exact ⟨m, rfl⟩

/-- On `sum(d:transactions/a@none) + sum(d:transactions/b@none)`, population
returns a plan under the minute context and raises a `ParsingException` under
the minute context ordered by the aggregate. -/
theorem populateQueryFromMqlContext_condition_sumDaPlusSumDb :
    ∃ P, parseMqlQueryBody "sum(d:transactions/a@none) + sum(d:transactions/b@none)"
        (.tree sumDaPlusSumDb) ⟨"generic_metrics"⟩ = .ok P ∧
      ContextValid epochServices minuteContext ∧
      ¬ContextValid epochServices orderedMinuteContext ∧
      (∃ P', populateQueryFromMqlContext epochServices P minuteContext = .ok (P', minuteContext)) ∧
      ∃ m, populateQueryFromMqlContext epochServices P orderedMinuteContext = .error (.parsing m) := by
  obtain ⟨P, hP⟩ : ∃ P, parseMqlQueryBody "sum(d:transactions/a@none) + sum(d:transactions/b@none)"
      (.tree sumDaPlusSumDb) ⟨"generic_metrics"⟩ = .ok P := ⟨_, rfl⟩
  have hvalid : ContextValid epochServices minuteContext :=
    ⟨⟨_, rfl⟩, ⟨_, rfl⟩, rfl, ⟨_, rfl⟩, ⟨_, rfl⟩⟩
  have hinvalid : ¬ContextValid epochServices orderedMinuteContext := fun h => by
    cases h.rollupValid
  obtain ⟨-, -, P', -, -, -, -, -, hpop, -⟩ :=
    (populateQueryFromMqlContext_condition hP epochServices minuteContext).1 hvalid
  exact ⟨P, hP, hvalid, hinvalid, ⟨P', hpop⟩,
    (populateQueryFromMqlContext_condition hP epochServices orderedMinuteContext).2 hinvalid⟩

end SnubaMql
