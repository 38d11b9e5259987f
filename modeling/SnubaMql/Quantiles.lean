import SnubaMql.FormulaPlan

/-! # The quantile post-processor

`quantiles_to_quantile`, the last of `MQL_POST_PROCESSORS`, rewrites every
single-level `quantiles(q)(x)` or `quantilesIf(q)(x, c)` of a compiled plan
into `arrayElement(quantiles(q)(x), 1)`, so that a formula reads a number
rather than a one-element array. It reaches every expression tree of the plan
through `Query.transform_expressions` and `Expression.transform` of
`snuba.query`, a bottom-up rewrite. Its callback reads
`internal_function.function_name`, so a curried call whose internal function
is not a call raises `AttributeError`; the rewrite lives in `Except` for that
reason.

The main result compares the rewrite with `unwrapQuantiles`, the rewrite as
the spec states it, over every plan: the code either returns the plan
`unwrapQuantiles` gives or raises `AttributeError`, and it returns it on
every plan whose curried calls all have a call as internal function, as the
annotation of `CurriedFunctionCall` promises.
-/

namespace SnubaMql

namespace Expression

mutual
/-- `Expression.transform(func)`: the children first, the internal function of
a curried call before its parameters, then `func` on the node rebuilt from
them. -/
def transform (func : Expression → Except PyException Expression) :
    Expression → Except PyException Expression
  | .column a t c => func (.column a t c)
  | .literal a v => func (.literal a v)
  | .functionCall a f ps => do
      let ps ← transformAll func ps
      func (.functionCall a f ps)
  | .curriedFunctionCall a i ps => do
      let i ← transform func i
      let ps ← transformAll func ps
      func (.curriedFunctionCall a i ps)
/-- `tuple(map(lambda child: child.transform(func), parameters))`. -/
def transformAll (func : Expression → Except PyException Expression) :
    List Expression → Except PyException (List Expression)
  | [] => pure []
  | e :: es => do
      let e ← transform func e
      let es ← transformAll func es
      pure (e :: es)
end

end Expression

/-- `Query.transform_expressions(func)`: the select list, the condition, the
group by and the order by, in this order. The array join, having and limit by
clauses it also visits are unset in every plan the compiler builds. -/
def Query.transformExpressions (func : Expression → Except PyException Expression)
    (q : Query) : Except PyException Query := do
  let selectedColumns ← q.selectedColumns.mapM fun s => do
    let e ← s.expression.transform func
    pure { s with expression := e }
  let condition ← q.condition.mapM (·.transform func)
  let groupby ← Expression.transformAll func q.groupby
  let orderBy ← q.orderBy.mapM fun o => do
    let e ← o.expression.transform func
    pure { o with expression := e }
  pure { q with selectedColumns, condition, groupby, orderBy }

/-- `arrayElement(alias, array, index)` of `snuba.query.dsl`. -/
def arrayElement (aliasName : Option String) (array index : Expression) : Expression :=
  .functionCall aliasName "arrayElement" [array, index]

/-- The callback `transform` of `quantiles_to_quantile`. -/
def quantilesTransform : Expression → Except PyException Expression
  | .curriedFunctionCall a (.functionCall ia f ips) ps =>
      if f ∈ ["quantiles", "quantilesIf"] ∧ ips.length = 1 then
        pure (arrayElement a (.curriedFunctionCall none (.functionCall ia f ips) ps)
          (.literal none (.num 1)))
      else pure (.curriedFunctionCall a (.functionCall ia f ips) ps)
  | .curriedFunctionCall _ (.column ..) _ =>
      throw (.attributeError "\x27Column\x27 object has no attribute \x27function_name\x27")
  | .curriedFunctionCall _ (.literal ..) _ =>
      throw (.attributeError "\x27Literal\x27 object has no attribute \x27function_name\x27")
  | .curriedFunctionCall _ (.curriedFunctionCall ..) _ =>
      throw (.attributeError
        "\x27CurriedFunctionCall\x27 object has no attribute \x27function_name\x27")
  | e => pure e

/-- `quantiles_to_quantile(query)`, which rewrites the plan in place. -/
def quantilesToQuantile (q : Query) : Except PyException Query :=
  q.transformExpressions quantilesTransform

/-! ## The rewrite as the spec states it -/

namespace Expression

/-- A call. -/
def isFunctionCall : Expression → Bool
  | .functionCall .. => true
  | _ => false

/-- A call of `arrayElement`. -/
def isArrayElement : Expression → Bool
  | .functionCall _ f _ => f == "arrayElement"
  | _ => false

/-- `quantiles(q)` or `quantilesIf(q)`: a call of either with exactly one
parameter. -/
def isOneLevelQuantiles : Expression → Bool
  | .functionCall _ f [_] => f == "quantiles" || f == "quantilesIf"
  | _ => false

/-- A curried call whose internal function `isOneLevelQuantiles`: the
occurrences the rewrite wraps. -/
def isSingleQuantiles : Expression → Bool
  | .curriedFunctionCall _ i _ => i.isOneLevelQuantiles
  | _ => false

mutual
/-- Every curried call of the tree has a call as its internal function. -/
def internalsAreCalls : Expression → Bool
  | .column .. | .literal .. => true
  | .functionCall _ _ ps => allInternalsAreCalls ps
  | .curriedFunctionCall _ i ps =>
      i.internalsAreCalls && allInternalsAreCalls ps && i.isFunctionCall
/-- `internalsAreCalls` of every tree of the list. -/
def allInternalsAreCalls : List Expression → Bool
  | [] => true
  | e :: es => e.internalsAreCalls && allInternalsAreCalls es
end

mutual
/-- The number of nodes of the tree that satisfy `p`. -/
def countNodes (p : Expression → Bool) : Expression → Nat
  | .column a t c => (p (.column a t c)).toNat
  | .literal a v => (p (.literal a v)).toNat
  | .functionCall a f ps => (p (.functionCall a f ps)).toNat + countNodesAll p ps
  | .curriedFunctionCall a i ps =>
      (p (.curriedFunctionCall a i ps)).toNat + countNodes p i + countNodesAll p ps
/-- `countNodes p` summed over a list. -/
def countNodesAll (p : Expression → Bool) : List Expression → Nat
  | [] => 0
  | e :: es => countNodes p e + countNodesAll p es
end

end Expression

mutual
/-- Every single-level quantiles call, its arguments rewritten and its alias
removed, wrapped in `arrayElement(·, 1)` under its alias; every other node
kept, with its children rewritten. -/
def unwrapQuantiles : Expression → Expression
  | .column a t c => .column a t c
  | .literal a v => .literal a v
  | .functionCall a f ps => .functionCall a f (unwrapQuantilesAll ps)
  | .curriedFunctionCall a i ps =>
      if i.isOneLevelQuantiles then
        arrayElement a (.curriedFunctionCall none (unwrapQuantiles i) (unwrapQuantilesAll ps))
          (.literal none (.num 1))
      else .curriedFunctionCall a (unwrapQuantiles i) (unwrapQuantilesAll ps)
/-- `unwrapQuantiles` of every tree of the list. -/
def unwrapQuantilesAll : List Expression → List Expression
  | [] => []
  | e :: es => unwrapQuantiles e :: unwrapQuantilesAll es
end

/-- The expression trees `transform_expressions` visits. -/
def Query.expressions (q : Query) : List Expression :=
  q.selectedColumns.map (·.expression) ++ q.condition.toList ++ q.groupby ++
    q.orderBy.map (·.expression)

/-- The plan with `f` applied to each tree `transform_expressions` visits. -/
def Query.mapExpressions (f : Expression → Expression) (q : Query) : Query :=
  { q with
    selectedColumns := q.selectedColumns.map fun s => { s with expression := f s.expression }
    condition := q.condition.map f
    groupby := q.groupby.map f
    orderBy := q.orderBy.map fun o => { o with expression := f o.expression } }

/-- The number of nodes satisfying `p` over every tree of the plan. -/
def Query.countNodes (p : Expression → Bool) (q : Query) : Nat :=
  (q.expressions.map (Expression.countNodes p)).sum

namespace Expression

@[simp] theorem isSingleQuantiles_curried (a : Option String) (i : Expression)
    (ps : List Expression) :
    (curriedFunctionCall a i ps).isSingleQuantiles = i.isOneLevelQuantiles := rfl

@[simp] theorem isSingleQuantiles_call (a : Option String) (f : String)
    (ps : List Expression) : (functionCall a f ps).isSingleQuantiles = false := rfl

@[simp] theorem isArrayElement_call (a : Option String) (f : String) (ps : List Expression) :
    (functionCall a f ps).isArrayElement = (f == "arrayElement") := rfl

@[simp] theorem isArrayElement_curried (a : Option String) (i : Expression)
    (ps : List Expression) : (curriedFunctionCall a i ps).isArrayElement = false := rfl

@[simp] theorem isSingleQuantiles_literal (a : Option String) (v : Value) :
    (literal a v).isSingleQuantiles = false := rfl

@[simp] theorem isArrayElement_literal (a : Option String) (v : Value) :
    (literal a v).isArrayElement = false := rfl

theorem isOneLevelQuantiles_call (a : Option String) (f : String) (ps : List Expression) :
    (functionCall a f ps).isOneLevelQuantiles =
      decide (f ∈ ["quantiles", "quantilesIf"] ∧ ps.length = 1) := by
  match ps with
  | [] | [_] | _ :: _ :: _ => simp [isOneLevelQuantiles, Bool.beq_eq_decide_eq]

theorem allInternalsAreCalls_eq_all :
    ∀ es : List Expression, allInternalsAreCalls es = es.all internalsAreCalls
  | [] => rfl
  | e :: es => by rw [allInternalsAreCalls, allInternalsAreCalls_eq_all es, List.all_cons]

end Expression

open Expression

@[simp] theorem unwrapQuantilesAll_eq_map :
    ∀ es : List Expression, unwrapQuantilesAll es = es.map unwrapQuantiles
  | [] => rfl
  | e :: es => by rw [unwrapQuantilesAll, unwrapQuantilesAll_eq_map es, List.map_cons]

/-- The rewrite keeps what makes an internal function a one-level quantiles
call: its name and its number of parameters. -/
theorem isOneLevelQuantiles_unwrapQuantiles (i : Expression) :
    (unwrapQuantiles i).isOneLevelQuantiles = i.isOneLevelQuantiles := by
  cases i with
  | functionCall a f ps =>
      simp only [unwrapQuantiles, unwrapQuantilesAll_eq_map, isOneLevelQuantiles_call,
        List.length_map]
  | curriedFunctionCall a i ps =>
      rw [unwrapQuantiles]
      split <;> rfl
  | column | literal => rfl

/-! ## The rewrite of one tree -/

section Rewrite

variable {α β : Type}

/-- What the rewrite returns: the value `expected`, or an `AttributeError`,
which a tree that is `typed` never raises. -/
def QuantilesResult (typed : Bool) (expected : α) (r : Except PyException α) : Prop :=
  r = .ok expected ∨ typed = false ∧ ∃ m, r = .error (.attributeError m)

theorem QuantilesResult.bind {b c : Bool} {x : α} {y : β} {r : Except PyException α}
    {f : α → Except PyException β} (hr : QuantilesResult b x r)
    (hf : QuantilesResult c y (f x)) : QuantilesResult (b && c) y (r >>= f) := by
  rcases hr with rfl | ⟨rfl, m, rfl⟩
  · rcases hf with h | ⟨rfl, h⟩
    · exact .inl h
    · exact .inr ⟨Bool.and_false b, h⟩
  · exact .inr ⟨rfl, m, rfl⟩

theorem QuantilesResult.bind_pure {b : Bool} {x : α} {r : Except PyException α}
    (g : α → β) (hr : QuantilesResult b x r) :
    QuantilesResult b (g x) (r >>= fun a => pure (g a)) := by
  rcases hr with rfl | ⟨hb, m, rfl⟩
  · exact .inl rfl
  · exact .inr ⟨hb, m, rfl⟩

theorem all_map_apply (l : List α) (k : α → β) (p : β → Bool) :
    (l.map k).all p = l.all fun x => p (k x) := by
  induction l <;> simp [*]

/-- A list rewritten element by element. -/
theorem mapM_quantilesResult {f : α → Except PyException β} {g : α → β} {p : α → Bool} :
    ∀ l : List α, (∀ x ∈ l, QuantilesResult (p x) (g x) (f x)) →
      QuantilesResult (l.all p) (l.map g) (l.mapM f)
  | [], _ => .inl rfl
  | x :: l, h => by
      rw [List.mapM_cons, List.all_cons, List.map_cons, ← Bool.and_true (l.all p)]
      exact (h x (List.mem_cons_self x l)).bind <|
        (mapM_quantilesResult l fun y hy => h y (List.mem_cons_of_mem x hy)).bind (.inl rfl)

end Rewrite

/-- The callback on a curried call whose children are rewritten already. -/
theorem quantilesTransform_curried (a : Option String) (i : Expression)
    (ps : List Expression) :
    QuantilesResult i.isFunctionCall (unwrapQuantiles (.curriedFunctionCall a i ps))
      (quantilesTransform
        (.curriedFunctionCall a (unwrapQuantiles i) (unwrapQuantilesAll ps))) := by
  cases i with
  | functionCall ia f ips =>
      left
      simp only [unwrapQuantiles, quantilesTransform, isOneLevelQuantiles_call,
        unwrapQuantilesAll_eq_map, List.length_map, decide_eq_true_eq]
      split_ifs <;> rfl
  | curriedFunctionCall ai ii ips =>
      have hcurried : (curriedFunctionCall ai ii ips).isOneLevelQuantiles = false := rfl
      rw [unwrapQuantiles, hcurried, if_neg Bool.false_ne_true, unwrapQuantiles]
      split
      · exact .inl rfl
      · exact .inr ⟨rfl, _, rfl⟩
  | column | literal => exact .inr ⟨rfl, _, rfl⟩

mutual
/-- `Expression.transform` with the callback of `quantiles_to_quantile`
rewrites a tree as `unwrapQuantiles` does, or raises `AttributeError` when
some curried call of it has an internal function that is not a call. -/
theorem transform_quantilesTransform : ∀ e : Expression,
    QuantilesResult e.internalsAreCalls (unwrapQuantiles e) (e.transform quantilesTransform)
  | .column .. | .literal .. => .inl rfl
  | .functionCall a f ps => by
      rw [internalsAreCalls, ← Bool.and_true (allInternalsAreCalls ps), unwrapQuantiles,
        transform]
      exact (transformAll_quantilesTransform ps).bind (.inl rfl)
  | .curriedFunctionCall a i ps => by
      rw [internalsAreCalls, Bool.and_assoc, transform]
      exact (transform_quantilesTransform i).bind <|
        (transformAll_quantilesTransform ps).bind (quantilesTransform_curried a i ps)
/-- The list version of `transform_quantilesTransform`. -/
theorem transformAll_quantilesTransform : ∀ es : List Expression,
    QuantilesResult (allInternalsAreCalls es) (unwrapQuantilesAll es)
      (transformAll quantilesTransform es)
  | [] => .inl rfl
  | e :: es => by
      rw [allInternalsAreCalls, ← Bool.and_true (allInternalsAreCalls es), unwrapQuantilesAll,
        transformAll]
      exact (transform_quantilesTransform e).bind <|
        (transformAll_quantilesTransform es).bind (.inl rfl)
end

/-! ## Counting the wrappers -/

mutual
/-- The rewrite keeps every single-level quantiles call and adds exactly one
`arrayElement` per call. -/
theorem countNodes_unwrapQuantiles : ∀ e : Expression,
    (unwrapQuantiles e).countNodes isSingleQuantiles = e.countNodes isSingleQuantiles ∧
      (unwrapQuantiles e).countNodes isArrayElement =
        e.countNodes isArrayElement + e.countNodes isSingleQuantiles
  | .column .. | .literal .. => ⟨rfl, rfl⟩
  | .functionCall a f ps => by
      obtain ⟨h1, h2⟩ := countNodesAll_unwrapQuantilesAll ps
      refine ⟨?_, ?_⟩ <;>
        simp only [unwrapQuantiles, countNodes, isArrayElement_call, isSingleQuantiles_call,
          Bool.toNat_false] <;>
        omega
  | .curriedFunctionCall a i ps => by
      obtain ⟨hi1, hi2⟩ := countNodes_unwrapQuantiles i
      obtain ⟨hp1, hp2⟩ := countNodesAll_unwrapQuantilesAll ps
      rw [unwrapQuantiles]
      cases hone : i.isOneLevelQuantiles <;> refine ⟨?_, ?_⟩ <;>
        simp only [arrayElement, countNodes, countNodesAll, isArrayElement_call,
          isArrayElement_curried, isSingleQuantiles_call, isSingleQuantiles_curried,
          isSingleQuantiles_literal, isArrayElement_literal, isOneLevelQuantiles_unwrapQuantiles,
          Bool.toNat_false, Bool.toNat_true, Bool.false_eq_true, if_true, if_false,
          beq_self_eq_true, *] <;>
        omega
/-- The list version of `countNodes_unwrapQuantiles`. -/
theorem countNodesAll_unwrapQuantilesAll : ∀ es : List Expression,
    countNodesAll isSingleQuantiles (unwrapQuantilesAll es) =
        countNodesAll isSingleQuantiles es ∧
      countNodesAll isArrayElement (unwrapQuantilesAll es) =
        countNodesAll isArrayElement es + countNodesAll isSingleQuantiles es
  | [] => ⟨rfl, rfl⟩
  | e :: es => by
      obtain ⟨h1, h2⟩ := countNodes_unwrapQuantiles e
      obtain ⟨h3, h4⟩ := countNodesAll_unwrapQuantilesAll es
      refine ⟨?_, ?_⟩ <;> simp only [unwrapQuantilesAll, countNodesAll] <;> omega
end

/-! ## The rewrite of a plan -/

theorem expressions_mapExpressions (f : Expression → Expression) (q : Query) :
    (q.mapExpressions f).expressions = q.expressions.map f := by
  cases q with
  | mk _ _ c =>
      cases c <;> simp [Query.expressions, Query.mapExpressions, Function.comp_def]

/-- `quantiles_to_quantile` on a plan: the plan `unwrapQuantiles` gives, or an
`AttributeError` from a tree whose curried calls are not all over calls. -/
theorem quantilesToQuantile_result (q : Query) :
    QuantilesResult (q.expressions.all internalsAreCalls)
      (q.mapExpressions unwrapQuantiles) (quantilesToQuantile q) := by
  have hsel := mapM_quantilesResult q.selectedColumns fun s _ =>
    (transform_quantilesTransform s.expression).bind_pure
      fun e => { s with expression := e }
  have hcond : QuantilesResult (q.condition.toList.all internalsAreCalls)
      (q.condition.map unwrapQuantiles) (q.condition.mapM (·.transform quantilesTransform)) := by
    cases q.condition with
    | none => exact .inl rfl
    | some c =>
        rw [Option.toList_some, List.all_cons, List.all_nil, Bool.and_true]
        exact (transform_quantilesTransform c).bind_pure some
  have hgb := transformAll_quantilesTransform q.groupby
  rw [allInternalsAreCalls_eq_all, unwrapQuantilesAll_eq_map] at hgb
  have hob := mapM_quantilesResult q.orderBy fun o _ =>
    (transform_quantilesTransform o.expression).bind_pure
      fun e => { o with expression := e }
  have hflag : q.expressions.all internalsAreCalls =
      ((q.selectedColumns.all fun s => s.expression.internalsAreCalls) &&
        (q.condition.toList.all internalsAreCalls && (q.groupby.all internalsAreCalls &&
          ((q.orderBy.all fun o => o.expression.internalsAreCalls) && true)))) := by
    simp only [Query.expressions, List.all_append, all_map_apply, Bool.and_assoc, Bool.and_true]
  rw [hflag]
  refine hsel.bind (hcond.bind (hgb.bind (hob.bind ?_)))
  exact .inl rfl

theorem quantilesToQuantile_rewrites (q : Query) :
    (quantilesToQuantile q = .ok (q.mapExpressions unwrapQuantiles) ∨
      ∃ m, quantilesToQuantile q = .error (.attributeError m)) ∧
    (q.expressions.all internalsAreCalls = true →
      quantilesToQuantile q = .ok (q.mapExpressions unwrapQuantiles)) ∧
    (q.mapExpressions unwrapQuantiles).countNodes isSingleQuantiles =
      q.countNodes isSingleQuantiles ∧
    (q.mapExpressions unwrapQuantiles).countNodes isArrayElement =
      q.countNodes isArrayElement + q.countNodes isSingleQuantiles := by
  have h := quantilesToQuantile_result q
  refine ⟨h.imp_right And.right, fun ht => h.resolve_right fun hf => ?_, ?_, ?_⟩
  · exact Bool.false_ne_true (hf.1.symm.trans ht)
  all_goals
    simp only [Query.countNodes, expressions_mapExpressions, List.map_map, Function.comp_def]
  · exact congrArg List.sum (List.map_congr_left fun e _ => (countNodes_unwrapQuantiles e).1)
  · rw [← List.sum_map_add]
    exact congrArg List.sum (List.map_congr_left fun e _ => (countNodes_unwrapQuantiles e).2)

/-- The plan of `productOfSums` has its `quantiles(0.5)` operand wrapped where
it stands, inside the `multiply` formula. -/
theorem quantilesToQuantile_rewrites_productOfSums :
    ∃ parsed v q, visitMql productOfSums = .ok (.inl parsed, v) ∧
      convertFormulaToQuery parsed ⟨"generic_metrics"⟩ = .ok q ∧
      quantilesToQuantile q = .ok (q.mapExpressions unwrapQuantiles) ∧
      q.countNodes isSingleQuantiles = 1 ∧
      (q.mapExpressions unwrapQuantiles).countNodes isArrayElement = 1 :=
  ⟨_, _, _, rfl, rfl, (quantilesToQuantile_rewrites _).2.1 (by decide), by decide, by decide⟩

/-- A two-level `quantiles(0.5, 0.9)(value)` keeps its array result. -/
example :
    (curriedFunctionCall (some "q") (.functionCall none "quantiles"
        [.literal none (.num (1 / 2)), .literal none (.num (9 / 10))])
      [.column none none "value"]).transform quantilesTransform =
    .ok (curriedFunctionCall (some "q") (.functionCall none "quantiles"
        [.literal none (.num (1 / 2)), .literal none (.num (9 / 10))])
      [.column none none "value"]) := rfl

end SnubaMql
