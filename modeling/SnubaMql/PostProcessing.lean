import SnubaMql.ContextChecks
import SnubaMql.Quantiles

/-! # Post-processing a populated plan

`parse_mql_query_new` populates the plan from the context before it runs the
post-processors, the last of which is `quantiles_to_quantile`. Population
adds trees of its own: the time range, scope and granularity conditions of
every data source, their time buckets and the order by of the rollup. None
of them has a curried call, so a rewrite of curried calls leaves them as they
are, and the two passes commute.

The module first gives population as one update of the plan, for every
context (`populateQueryFromMqlContext_eq`): the checks of each source, then of
the limit and the offset, and on success `Query.populated`, the plan with the
sources' context conditions, time buckets, order by and totals. From it,
population commutes with every rewrite that changes curried calls only
(`populateQueryFromMqlContext_rewrite`), and `quantiles_to_quantile`
run on a populated plan gives the population of the plan rewritten as the
spec states it (`quantilesToQuantile_populated`). In particular the time
range, scope and granularity filters of every data source stay conjuncts of
the condition of every plan the two passes return
(`quantilesToQuantile_populated_conjuncts`).
-/

namespace SnubaMql

open Expression

/-! ## Population as one update of the plan -/

/-- The plan population builds from `q` once every check has passed: the
context conditions `cs` of the sources conjoined in front of its condition in
turn, the time bucket of every source selected and grouped by, the order by
of the last source, and the totals of the rollup. -/
def Query.populated (q : Query) (ctx : MQLContext) (sources : List (EntityKey × Option String))
    (cs : List Expression) : Query :=
  { q with
    condition := cs.foldl (fun acc c => some (acc.elim c (binaryCondition "and" c))) q.condition
    selectedColumns := q.selectedColumns ++
      sources.flatMap fun s => ((timeBucket ctx).map (selectedTimeColumn · s.2)).toList
    groupby := q.groupby ++
      sources.flatMap fun s => ((timeBucket ctx).map (timeExpression · s.2)).toList
    orderBy := (sources.getLast?.bind fun s => rollupOrderBy ctx s.2).elim q.orderBy fun o => [o]
    totals := if sources = [] then q.totals else decide (ctx.rollup.withTotals = some "True") }

/-- The order by after one more source: the last source's, whenever there is
one that orders. -/
theorem getLast_rollupOrderBy_cons (ctx : MQLContext) (s : EntityKey × Option String)
    (sources : List (EntityKey × Option String)) (ob : List OrderBy) :
    (sources.getLast?.bind fun t => rollupOrderBy ctx t.2).elim
        ((rollupOrderBy ctx s.2).elim ob fun o => [o]) (fun o => [o]) =
      ((s :: sources).getLast?.bind fun t => rollupOrderBy ctx t.2).elim ob fun o => [o] := by
  rcases sources with _ | ⟨t, ts⟩
  · rfl
  · obtain ⟨last, hlast⟩ : ∃ last, (t :: ts).getLast? = some last :=
      ⟨_, List.getLast?_eq_getLast _ (List.cons_ne_nil t ts)⟩
    rw [List.getLast?_cons_cons, hlast, Option.some_bind, rollupOrderBy_elim_elim]

/-- One more source, populated first. -/
theorem Query.populated_cons (q : Query) (ctx : MQLContext) (s : EntityKey × Option String)
    (sources : List (EntityKey × Option String)) (c : Expression) (cs : List Expression) :
    { (q.addConditionToAst c).withRollup ctx s.2 with
        totals := decide (ctx.rollup.withTotals = some "True") }.populated ctx sources cs =
      q.populated ctx (s :: sources) (c :: cs) := by
  simp only [Query.populated, Query.withRollup, Query.addConditionToAst_eq, List.foldl_cons,
    List.flatMap_cons, List.append_assoc, getLast_rollupOrderBy_cons]
  simp

/-- The loop over the data sources, for every context: the context condition
of each source in turn, each of which checks the times and the rollup, and on
success the populated plan. -/
theorem populateSources_eq (services : Services) (ctx : MQLContext) :
    ∀ (sources : List (EntityKey × Option String)) (q : Query) (found : Bool),
      populateSources services ctx sources q found =
        (sources.mapM fun s => contextCondition services ctx s.1 s.2).map fun cs =>
          (q.populated ctx sources cs, found || (!sources.isEmpty && (timeBucket ctx).isSome))
  | [], q, found => by simp [populateSources, Query.populated, Except.map, -List.mapM]
  | s :: sources, q, found => by
      rw [populateSources, populateSource_eq, List.mapM_cons]
      rcases hc : contextCondition services ctx s.1 s.2 with x | c
      · rfl
      rw [(contextCondition_ok_checked hc).2.2]
      simp only [ok_bind, Except.map]
      rw [populateSources_eq services ctx sources]
      rcases hm : sources.mapM (fun s => contextCondition services ctx s.1 s.2) with x | cs <;>
        rw [hm]
      · rfl
      refine congrArg Except.ok (Prod.ext (Query.populated_cons q ctx s sources c cs) ?_)
      cases found <;> cases sources <;> simp

/-- Population, for every plan and every context: the checks of every source,
then those of the limit and the offset; on success, the populated plan with
its time keys when it is a join grouped by time, its limit and its offset. -/
theorem populateQueryFromMqlContext_eq (services : Services) (P : Query) (ctx : MQLContext) :
    populateQueryFromMqlContext services P ctx =
      ((entityData P).mapM fun s => contextCondition services ctx s.1 s.2) >>= fun cs =>
        limitValue ctx >>= fun l => (offsetValue ctx).map fun o =>
          ({ P.populated ctx (entityData P) cs with
              fromClause := if (timeBucket ctx).isSome then P.fromClause.withTimeKeys
                else P.fromClause
              limit := some l
              offset := o.getD P.offset }, ctx) := by
  unfold populateQueryFromMqlContext
  dsimp only
  rw [populateSources_eq]
  rcases hm : (entityData P).mapM (fun s => contextCondition services ctx s.1 s.2) with x | cs <;>
    rw [hm]
  · rfl
  have hfix := timeFixup_eq (P.populated ctx (entityData P) cs) (timeBucket ctx).isSome
  have hdata : entityData (P.populated ctx (entityData P) cs) = entityData P := rfl
  rw [hdata] at hfix
  simp only [Except.map, ok_bind, entityData_isEmpty, Bool.not_false, Bool.true_and,
    Bool.false_or]
  rcases limitValue ctx with x | l <;> rcases offsetValue ctx with y | _ | o <;>
    split_ifs at hfix ⊢ <;> rw [hfix, ok_bind] <;> rfl

/-! ## The trees population adds -/

/-- A rewrite of expression trees that changes curried calls only: it keeps
columns and literals, and rewrites the parameters of a call in place. -/
structure RewritesCurriedOnly (f : Expression → Expression) : Prop where
  column : ∀ a t c, f (.column a t c) = .column a t c
  literal : ∀ a v, f (.literal a v) = .literal a v
  functionCall : ∀ a n ps, f (.functionCall a n ps) = .functionCall a n (ps.map f)

theorem unwrapQuantiles_rewritesCurriedOnly : RewritesCurriedOnly unwrapQuantiles :=
  ⟨fun _ _ _ => rfl, fun _ _ => rfl, fun a n ps => by rw [unwrapQuantiles, unwrapQuantilesAll_eq_map]⟩

/-- A tree of columns, literals and calls only: every rewrite of curried calls
keeps it, and it has no curried call whose internal function is not a call. -/
structure Inert (e : Expression) : Prop where
  fixed : ∀ f, RewritesCurriedOnly f → f e = e
  typed : e.internalsAreCalls = true

namespace Inert

@[simp] theorem column (a t : Option String) (c : String) : Inert (.column a t c) :=
  ⟨fun _ hf => hf.column a t c, rfl⟩

@[simp] theorem literal (a : Option String) (v : Value) : Inert (.literal a v) :=
  ⟨fun _ hf => hf.literal a v, rfl⟩

theorem functionCall {a : Option String} {n : String} {ps : List Expression}
    (h : ∀ p ∈ ps, Inert p) : Inert (.functionCall a n ps) where
  fixed f hf := by
    rw [hf.functionCall, List.map_congr_left fun p hp => (h p hp).fixed f hf, List.map_id']
  typed := by
    rw [internalsAreCalls, allInternalsAreCalls_eq_all, List.all_eq_true]
    exact fun p hp => (h p hp).typed

@[simp] theorem binaryCondition {n : String} {l r : Expression} (hl : Inert l) (hr : Inert r) :
    Inert (binaryCondition n l r) :=
  functionCall (by simp [hl, hr])

end Inert

/-- A property that the `and` of two trees with it has holds of every
combination of trees with it. -/
theorem combineAndConditions_forall {p : Expression → Prop}
    (hp : ∀ l r, p l → p r → p (binaryCondition "and" l r)) :
    ∀ {cs : List Expression} {c : Expression}, (∀ d ∈ cs, p d) →
      combineAndConditions cs = .ok c → p c
  | [], _, _, h => by cases h
  | [d], c, hcs, h => by cases h; exact hcs d (List.mem_singleton_self d)
  | d :: e :: cs, c, hcs, h => by
      simp only [combineAndConditions_cons_cons, Except.map] at h
      split at h
      · cases h
      · next c' hc' =>
        cases h
        exact hp _ _ (hcs d (List.mem_cons_self d _))
          (combineAndConditions_forall hp (fun x hx => hcs x (List.mem_cons_of_mem d hx)) hc')

theorem combineAndConditions_inert {cs : List Expression} {c : Expression}
    (hcs : ∀ d ∈ cs, Inert d) (h : combineAndConditions cs = .ok c) : Inert c :=
  combineAndConditions_forall (fun _ _ => .binaryCondition) hcs h

section Trees

variable {services : Services} {ctx : MQLContext}

theorem startEndTimeCondition_inert {k : EntityKey} {a : Option String} {c : Expression}
    (h : startEndTimeCondition services ctx k a = .ok c) : Inert c := by
  unfold startEndTimeCondition at h
  split at h
  · exact combineAndConditions_inert (by simp) h
  · cases h

theorem scopeConditions_inert {a : Option String} {c : Expression}
    (h : scopeConditions ctx a = .ok c) : Inert c :=
  combineAndConditions_inert (by simp [Inert.functionCall]) h

theorem granularityCondition_inert (a : Option String) : Inert (granularityCondition ctx a) := by
  simp [granularityCondition]

/-- Every context condition population builds is inert. -/
theorem contextCondition_inert {k : EntityKey} {a : Option String} {c : Expression}
    (h : contextCondition services ctx k a = .ok c) : Inert c := by
  obtain ⟨t, s, ht, hs, h⟩ := contextCondition_parts h
  exact combineAndConditions_inert (by simp [startEndTimeCondition_inert ht,
    scopeConditions_inert hs, granularityCondition_inert]) h

theorem timeExpression_inert (i : Int) (a : Option String) : Inert (timeExpression i a) := by
  simp [timeExpression, Inert.functionCall]

theorem rollupOrderBy_inert (a : Option String) : ∀ o ∈ rollupOrderBy ctx a, Inert o.expression := by
  unfold rollupOrderBy
  rcases timeBucket ctx with _ | i
  · cases ctx.rollup.orderby <;> simp
  · simp [timeExpression_inert]

end Trees

theorem mapM_eq_ok_forall {α β ε : Type} {f : α → Except ε β} {p : β → Prop}
    (hf : ∀ a b, f a = .ok b → p b) : ∀ {l : List α} {bs : List β}, l.mapM f = .ok bs →
      ∀ b ∈ bs, p b
  | [], bs, h => by cases h; simp
  | a :: l, bs, h => by
      rw [List.mapM_cons, bind_eq_ok] at h
      obtain ⟨b, hb, h⟩ := h
      rw [bind_eq_ok] at h
      obtain ⟨bs', hbs', h⟩ := h
      cases h
      exact List.forall_mem_cons.mpr ⟨hf a b hb, mapM_eq_ok_forall hf hbs'⟩

theorem mapM_eq_ok_mem {α β ε : Type} {f : α → Except ε β} :
    ∀ {l : List α} {bs : List β}, l.mapM f = .ok bs → ∀ a ∈ l, ∃ b ∈ bs, f a = .ok b
  | a :: l, bs, h, x, hx => by
      rw [List.mapM_cons, bind_eq_ok] at h
      obtain ⟨b, hb, h⟩ := h
      rw [bind_eq_ok] at h
      obtain ⟨bs', hbs', h⟩ := h
      cases h
      rcases List.mem_cons.mp hx with rfl | hx
      · exact ⟨b, List.mem_cons_self b bs', hb⟩
      · obtain ⟨b', hb', hx⟩ := mapM_eq_ok_mem hbs' x hx
        exact ⟨b', List.mem_cons_of_mem b hb', hx⟩

/-! ## Population commutes with rewrites of curried calls -/

section Rewrite

variable {f : Expression → Expression}

/-- Conjoining inert conditions in front commutes with the rewrite. -/
theorem foldl_conjoin_map (hf : RewritesCurriedOnly f) :
    ∀ {cs : List Expression} (init : Option Expression),
    (∀ c ∈ cs, Inert c) →
      (cs.foldl (fun acc c => some (acc.elim c (binaryCondition "and" c))) init).map f =
        cs.foldl (fun acc c => some (acc.elim c (binaryCondition "and" c))) (init.map f)
  | [], _, _ => rfl
  | c :: cs, init, hcs => by
      rw [List.forall_mem_cons] at hcs
      rw [List.foldl_cons, List.foldl_cons, foldl_conjoin_map hf _ hcs.2]
      congr 1
      cases init <;> simp [hcs.1.fixed f hf, binaryCondition, hf.functionCall]

theorem Query.populated_mapExpressions (hf : RewritesCurriedOnly f) (q : Query) (ctx : MQLContext)
    (sources : List (EntityKey × Option String)) {cs : List Expression}
    (hcs : ∀ c ∈ cs, Inert c) :
    (q.populated ctx sources cs).mapExpressions f = (q.mapExpressions f).populated ctx sources cs := by
  have ht : ∀ i a, f (timeExpression i a) = timeExpression i a := fun i a =>
    (timeExpression_inert i a).fixed f hf
  simp only [Query.populated, Query.mapExpressions, foldl_conjoin_map hf _ hcs, List.map_append]
  rcases hx : sources.getLast?.bind (fun s => rollupOrderBy ctx s.2) with _ | o
  · rcases timeBucket ctx with _ | i <;> simp [selectedTimeColumn, ht, List.map_flatMap]
  · obtain ⟨s, -, hs⟩ := Option.bind_eq_some.mp hx
    have ho := (rollupOrderBy_inert s.2 o hs).fixed f hf
    rcases timeBucket ctx with _ | i <;> simp [selectedTimeColumn, ht, ho, List.map_flatMap]

theorem populateQueryFromMqlContext_rewrite (hf : RewritesCurriedOnly f)
    (services : Services) (P : Query) (ctx : MQLContext) :
    populateQueryFromMqlContext services (P.mapExpressions f) ctx =
      (populateQueryFromMqlContext services P ctx).map fun r => (r.1.mapExpressions f, r.2) := by
  have hdata : entityData (P.mapExpressions f) = entityData P := rfl
  rw [populateQueryFromMqlContext_eq, populateQueryFromMqlContext_eq, hdata]
  rcases hm : (entityData P).mapM (fun s => contextCondition services ctx s.1 s.2) with x | cs <;>
    rw [hm]
  · rfl
  have hcs := mapM_eq_ok_forall (fun _ _ => contextCondition_inert) hm
  rcases limitValue ctx with x | l
  · rfl
  rcases offsetValue ctx with x | o
  · rfl
  simp only [ok_bind, Except.map, ← Query.populated_mapExpressions hf P ctx _ hcs]
  rfl

/-- Population commutes with every rewrite that changes curried calls only,
for every plan and every context, errors included: populating the rewritten
plan gives the population of the plan, rewritten. What population adds has no
curried call, and its checks never read the plan's trees. -/
theorem populateQueryFromMqlContext_mapExpressions (hf : RewritesCurriedOnly f)
    (services : Services) (P : Query) (ctx : MQLContext) :
    populateQueryFromMqlContext services (P.mapExpressions f) ctx =
      (populateQueryFromMqlContext services P ctx).map fun r => (r.1.mapExpressions f, r.2) :=
  populateQueryFromMqlContext_rewrite hf services P ctx

theorem populateQueryFromMqlContext_mapExpressions_productOfSums :
    ∃ P, parseMqlQueryBody "sum(d:transactions/a@none\x7benv:prod\x7d) by x * quantiles(0.5)(d:transactions/b@none) by x"
        (.tree productOfSums) ⟨"generic_metrics"⟩ = .ok P ∧
      RewritesCurriedOnly unwrapQuantiles ∧
      populateQueryFromMqlContext epochServices (P.mapExpressions unwrapQuantiles) minuteContext =
        (populateQueryFromMqlContext epochServices P minuteContext).map fun r =>
          (r.1.mapExpressions unwrapQuantiles, r.2) :=
  ⟨_, rfl, unwrapQuantiles_rewritesCurriedOnly,
    populateQueryFromMqlContext_mapExpressions unwrapQuantiles_rewritesCurriedOnly _ _ _⟩

end Rewrite

/-! ## Population keeps a plan's curried calls over calls -/

theorem foldl_conjoin_typed : ∀ {cs : List Expression} (init : Option Expression),
    (∀ c ∈ cs, Inert c) → init.toList.all internalsAreCalls = true →
      (cs.foldl (fun acc c => some (acc.elim c (binaryCondition "and" c))) init).toList.all
        internalsAreCalls = true
  | [], _, _, h => h
  | c :: cs, init, hcs, h => by
      rw [List.forall_mem_cons] at hcs
      rw [List.foldl_cons]
      refine foldl_conjoin_typed _ hcs.2 ?_
      cases init with
      | none => simpa using hcs.1.typed
      | some a =>
          simpa [binaryCondition, internalsAreCalls, allInternalsAreCalls, hcs.1.typed] using h

theorem Query.populated_typed (q : Query) (ctx : MQLContext)
    (sources : List (EntityKey × Option String)) {cs : List Expression}
    (hcs : ∀ c ∈ cs, Inert c) (hq : q.expressions.all internalsAreCalls = true) :
    (q.populated ctx sources cs).expressions.all internalsAreCalls = true := by
  simp only [Query.expressions, Query.populated, List.map_append, List.all_append,
    Bool.and_eq_true] at hq ⊢
  have ht : ∀ i a, (timeExpression i a).internalsAreCalls = true := fun i a =>
    (timeExpression_inert i a).typed
  refine ⟨⟨⟨⟨hq.1.1.1, ?_⟩, foldl_conjoin_typed _ hcs hq.1.1.2⟩, hq.1.2, ?_⟩, ?_⟩
  · rcases timeBucket ctx with _ | i <;> simp [selectedTimeColumn]
    rintro _ _ _ a - rfl rfl
    exact ht i a
  · rcases timeBucket ctx with _ | i <;> simp [ht]
  · rcases hx : sources.getLast?.bind (fun s => rollupOrderBy ctx s.2) with _ | o
    · exact hq.2
    · obtain ⟨s, -, hs⟩ := Option.bind_eq_some.mp hx
      simp [(rollupOrderBy_inert s.2 o hs).typed]

/-- Population keeps every curried call of the plan over a call, and adds
none that is not. -/
theorem populateQueryFromMqlContext_typed {services : Services} {P P' : Query}
    {ctx ctx' : MQLContext} (h : populateQueryFromMqlContext services P ctx = .ok (P', ctx'))
    (hP : P.expressions.all internalsAreCalls = true) :
    P'.expressions.all internalsAreCalls = true := by
  rw [populateQueryFromMqlContext_eq, bind_eq_ok] at h
  obtain ⟨cs, hm, h⟩ := h
  rw [bind_eq_ok] at h
  obtain ⟨l, -, h⟩ := h
  rcases ho : offsetValue ctx with x | o <;> rw [ho] at h <;> cases h
  exact Query.populated_typed P ctx _ (mapM_eq_ok_forall (fun _ _ => contextCondition_inert) hm) hP

/-! ## `quantiles_to_quantile` after population -/

/-- `quantiles_to_quantile` run on a populated plan, for every plan and every
context, gives the population of the plan rewritten as the spec states it: the
post-processor leaves the time range, scope, granularity, time bucket and
order by that population adds as they are, and a failed population fails
alike. The only other outcome is an `AttributeError`, and only when some
curried call of the plan itself has an internal function that is not a
call. -/
theorem quantilesToQuantile_populated (services : Services) (P : Query) (ctx : MQLContext) :
    ((populateQueryFromMqlContext services P ctx) >>= fun r => quantilesToQuantile r.1) =
        (populateQueryFromMqlContext services (P.mapExpressions unwrapQuantiles) ctx).map
          Prod.fst ∨
      P.expressions.all internalsAreCalls = false ∧
        ∃ m, ((populateQueryFromMqlContext services P ctx) >>= fun r => quantilesToQuantile r.1) =
          .error (.attributeError m) := by
  rw [populateQueryFromMqlContext_rewrite unwrapQuantiles_rewritesCurriedOnly]
  rcases hpop : populateQueryFromMqlContext services P ctx with x | ⟨P', ctx'⟩
  · exact .inl rfl
  rcases quantilesToQuantile_result P' with h | ⟨hf, m, h⟩
  · exact .inl (by rw [ok_bind, h]; rfl)
  · refine .inr ⟨?_, m, by rw [ok_bind, h]⟩
    cases hP : P.expressions.all internalsAreCalls
    · rfl
    · rw [populateQueryFromMqlContext_typed hpop hP] at hf
      cases hf

/-! ## The context's filters survive the post-processor -/

theorem conjuncts_foldl_and (cs : List Expression) (c₀ : Expression) :
    (cs.foldl (fun acc c => binaryCondition "and" c acc) c₀).conjuncts =
      cs.reverse.flatMap Expression.conjuncts ++ c₀.conjuncts := by
  induction cs generalizing c₀ with
  | nil => simp
  | cons c cs ih => simp [ih]

/-- Conjoining in front keeps every conjunct of every conjoined condition. -/
theorem mem_conjuncts_foldl_conjoin : ∀ {cs : List Expression} (init : Option Expression)
    {x d : Expression}, x ∈ cs → d ∈ x.conjuncts →
      ∃ c, cs.foldl (fun acc c => some (acc.elim c (binaryCondition "and" c))) init = some c ∧
        d ∈ c.conjuncts
  | x :: cs, init, y, d, hy, hd => by
      rw [List.foldl_cons]
      rcases List.mem_cons.mp hy with rfl | hy
      · refine ⟨_, foldl_conjoin_some cs _, ?_⟩
        rw [conjuncts_foldl_and]
        apply List.mem_append_right
        cases init <;> simp [hd]
      · exact mem_conjuncts_foldl_conjoin _ hy hd

/-- The context conditions of the data sources all hold the context's
filters as their conjuncts, over one time range. -/
theorem mapM_contextCondition_conjuncts {services : Services} {ctx : MQLContext}
    {sources : List (EntityKey × Option String)} {cs : List Expression}
    (hm : sources.mapM (fun s => contextCondition services ctx s.1 s.2) = .ok cs)
    {s₀ : EntityKey × Option String} (hs₀ : s₀ ∈ sources) :
    ∃ start stop, services.parseDatetime ctx.start = some start ∧
      services.parseDatetime ctx.«end» = some stop ∧
      ∀ s ∈ sources, ∃ c ∈ cs, c.conjuncts = contextConjuncts services ctx s.1 s.2 start stop := by
  obtain ⟨c₀, -, hc₀⟩ := mapM_eq_ok_mem hm s₀ hs₀
  obtain ⟨start, stop, hstart, hstop, -⟩ := contextCondition_conjuncts hc₀
  refine ⟨start, stop, hstart, hstop, fun s hs => ?_⟩
  obtain ⟨c, hc, hcc⟩ := mapM_eq_ok_mem hm s hs
  obtain ⟨start', stop', hstart', hstop', hconj⟩ := contextCondition_conjuncts hcc
  cases hstart.symm.trans hstart'
  cases hstop.symm.trans hstop'
  exact ⟨c, hc, hconj⟩

/-- Every plan that population followed by `quantiles_to_quantile` returns
keeps, among the conjuncts of its condition, the context's filters for every
data source of the original plan: the time range `[start, end)` on the
entity's time column, the project, organisation and use case of the scope,
and the granularity, each on the source's alias. Every row the plan reads
satisfies all of them, whatever the rest of its condition says. -/
theorem quantilesToQuantile_populated_conjuncts (services : Services) {P P'' : Query}
    {ctx : MQLContext}
    (h : (populateQueryFromMqlContext services P ctx >>= fun r => quantilesToQuantile r.1) =
      .ok P'') :
    ∃ start stop c, services.parseDatetime ctx.start = some start ∧
      services.parseDatetime ctx.«end» = some stop ∧ P''.condition = some c ∧
      ∀ s ∈ entityData P, ∀ d ∈ contextConjuncts services ctx s.1 s.2 start stop,
        d ∈ c.conjuncts := by
  rw [bind_eq_ok] at h
  obtain ⟨⟨P', ctx'⟩, hpop, hq⟩ := h
  have hP'' : P'' = P'.mapExpressions unwrapQuantiles := by
    rcases quantilesToQuantile_result P' with h' | ⟨-, m, h'⟩ <;> rw [h'] at hq <;> cases hq
    rfl
  simp only [populateQueryFromMqlContext_eq, bind_eq_ok] at hpop
  obtain ⟨cs, hm, l, -, hpop⟩ := hpop
  have hcond : P''.condition = cs.foldl (fun acc c => some (acc.elim c (binaryCondition "and" c)))
      (P.condition.map unwrapQuantiles) := by
    rcases ho : offsetValue ctx with x | o <;> rw [ho] at hpop <;> cases hpop
    rw [hP'']
    exact foldl_conjoin_map unwrapQuantiles_rewritesCurriedOnly _
      (mapM_eq_ok_forall (fun _ _ => contextCondition_inert) hm)
  obtain ⟨s₀, hs₀⟩ := List.exists_mem_of_ne_nil _
    (by simpa [List.isEmpty_iff] using entityData_isEmpty P)
  obtain ⟨start, stop, hstart, hstop, hconj⟩ := mapM_contextCondition_conjuncts hm hs₀
  obtain ⟨c₀, hc₀, hconj₀⟩ := hconj s₀ hs₀
  obtain ⟨c, hc, -⟩ := mem_conjuncts_foldl_conjoin (P.condition.map unwrapQuantiles) hc₀
    (by rw [hconj₀]; exact List.mem_cons_self _ _)
  refine ⟨start, stop, c, hstart, hstop, hcond.trans hc, fun s hs d hd => ?_⟩
  obtain ⟨x, hx, hxc⟩ := hconj s hs
  obtain ⟨c', hc', hd'⟩ := mem_conjuncts_foldl_conjoin (P.condition.map unwrapQuantiles) hx
    (by rwa [hxc])
  cases hc.symm.trans hc'
  exact hd'

theorem quantilesToQuantile_populated_conjuncts_productOfSums :
    ∃ P P'', parseMqlQueryBody "sum(d:transactions/a@none\x7benv:prod\x7d) by x * quantiles(0.5)(d:transactions/b@none) by x"
        (.tree productOfSums) ⟨"generic_metrics"⟩ = .ok P ∧
      (populateQueryFromMqlContext epochServices P minuteContext >>= fun r =>
        quantilesToQuantile r.1) = .ok P'' ∧
      ∃ start stop c, epochServices.parseDatetime minuteContext.start = some start ∧
        epochServices.parseDatetime minuteContext.«end» = some stop ∧ P''.condition = some c ∧
        ∀ s ∈ entityData P, ∀ d ∈ contextConjuncts epochServices minuteContext s.1 s.2 start stop,
          d ∈ c.conjuncts :=
  ⟨_, _, rfl, rfl, quantilesToQuantile_populated_conjuncts epochServices rfl⟩

end SnubaMql
