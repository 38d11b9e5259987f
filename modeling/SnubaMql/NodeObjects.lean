import SnubaMql.AggregateTrees

/-! # The visitor's tree: two kinds of node, no shared object

`MQLVisitor` builds its tree out of `InitialParseResult` objects and then
changes them in place: `visit_aggregate` and the other function visitors set
a leaf's expression, `visit_inner_filter`, `visit_filter` and
`pushdown_values` its conditions and group by. The model reads each of those
mutations as the update of one position of a tree value, which is faithful
exactly when no object sits at two positions of the tree.

`ObjTree` records which object sits where. The visitor allocates a metric
object in `visit_quoted_mri` and `visit_unquoted_mri` and a formula object in
`visit_expression`, `visit_term` and `visit_unary`; every other visit returns
an object one of its children returned. `objExpression` follows that flow and
numbers the objects in the order they are allocated, children first.
`visitMql_objects` shows, for every MQL expression the visitor accepts, that
every node of its tree is a formula node or a metric node, never both, that
the object tree describes the tree position by position, and that no object
number repeats.
-/

namespace SnubaMql

namespace InitialParseResult

/-- The number of parameters a formula of the visitor takes: two for an
arithmetic operator, one for `negate`. -/
def formulaArity (f : String) : Option Nat :=
  if f ∈ ["plus", "minus", "multiply", "divide"] then some 2
  else if f = "negate" then some 1 else none

/-- A formula node: an arithmetic operator over two parameters, or `negate`
over one, with every other field unset. -/
def isFormulaNode (r : InitialParseResult) : Bool :=
  r.expression.isNone && r.conditions.isNone && r.groupby.isNone && r.mri.isNone &&
    r.tableAlias.isNone &&
    match r.formula, r.parameters with
    | some f, some ps => formulaArity f == some ps.length
    | _, _ => false

/-- A metric node: an MRI and a table alias, no formula and no parameters. -/
def isMetricNode (r : InitialParseResult) : Bool :=
  r.mri.isSome && r.tableAlias.isSome && r.formula.isNone && r.parameters.isNone

end InitialParseResult

mutual
/-- The nodes of a tree, one per position, in pre-order: a node and the
nodes below its parameters. -/
def nodes : InitialParseResult → List InitialParseResult
  | r@⟨_, _, ps, _, _, _, _⟩ => r :: match ps with
    | none => []
    | some ps => paramsNodes ps
/-- The nodes of a parameter: none for a number. -/
def paramNodes : FormulaParameter → List InitialParseResult
  | .inl r => nodes r
  | .inr _ => []
/-- The nodes of each parameter of a list. -/
def paramsNodes : List FormulaParameter → List InitialParseResult
  | [] => []
  | p :: ps => paramNodes p ++ paramsNodes ps
end

/-! ## Objects -/

/-- The objects of a visited tree: a number parameter, a metric object, or a
formula object over its parameters, each object by its allocation number. -/
inductive ObjTree where
  | number
  | metric (id : Nat)
  | formula (id : Nat) (parameters : List ObjTree)
deriving Repr

namespace ObjTree

mutual
/-- The object numbers of the tree, in pre-order. -/
def ids : ObjTree → List Nat
  | .number => []
  | .metric i => [i]
  | .formula i os => i :: idsAll os
/-- The object numbers of each tree of a list. -/
def idsAll : List ObjTree → List Nat
  | [] => []
  | o :: os => ids o ++ idsAll os
end

mutual
/-- `o` describes `p` when they have the same positions and the node at each
position is of the kind of the object there. -/
def describes : ObjTree → FormulaParameter → Bool
  | .number, .inr _ => true
  | .metric _, .inl r => r.isMetricNode
  | .formula _ os, .inl r => r.isFormulaNode && describesAll os (r.parameters.getD [])
  | _, _ => false
/-- `describes`, position by position along two lists. -/
def describesAll : List ObjTree → List FormulaParameter → Bool
  | [], [] => true
  | o :: os, p :: ps => describes o p && describesAll os ps
  | _, _ => false
end

end ObjTree

/-- The formula object `visit_expression` and `visit_term` allocate, after all
their children, when there is a repetition. -/
def objCombine (term : ObjTree) : List ObjTree → Nat → ObjTree × Nat
  | [], n => (term, n)
  | operand :: _, n => (.formula n [term, operand], n + 1)

/-- `visit_unary` under a minus: a number is negated without an object, a
node gets a `negate` formula object over it. -/
def objNegate : ObjTree → Nat → ObjTree × Nat
  | .number, n => (.number, n)
  | o, n => (.formula n [o], n + 1)

mutual
/-- The objects `visit_expression` returns, allocating from `n` on: the
term's, then the repetitions', then the formula object. -/
def objExpression : MqlExpression → Nat → ObjTree × Nat
  | .expression first rest, n =>
      let term := objTerm first n
      let others := objExpressionOthers rest term.2
      objCombine term.1 others.1 others.2
/-- The objects of the `(expr_op term)*` repetitions, each visited in order. -/
def objExpressionOthers : List (ExprOp × MqlTerm) → Nat → List ObjTree × Nat
  | [], n => ([], n)
  | (_, t) :: rest, n =>
      let t := objTerm t n
      let others := objExpressionOthers rest t.2
      (t.1 :: others.1, others.2)
/-- The objects `visit_term` returns. -/
def objTerm : MqlTerm → Nat → ObjTree × Nat
  | .term first rest, n =>
      let u := objUnary first n
      let others := objTermOthers rest u.2
      objCombine u.1 others.1 others.2
/-- The objects of the `(term_op unary)*` repetitions, each visited in order. -/
def objTermOthers : List (TermOp × MqlUnary) → Nat → List ObjTree × Nat
  | [], n => ([], n)
  | (_, u) :: rest, n =>
      let u := objUnary u n
      let others := objTermOthers rest u.2
      (u.1 :: others.1, others.2)
/-- The objects `visit_unary` returns. -/
def objUnary : MqlUnary → Nat → ObjTree × Nat
  | .unary negate c, n =>
      let o := objCoefficient c n
      if negate then objNegate o.1 o.2 else o
/-- The objects `visit_coefficient` returns: none for a number. -/
def objCoefficient : MqlCoefficient → Nat → ObjTree × Nat
  | .number _, n => (.number, n)
  | .filter f, n => objFilter f n
/-- `visit_filter` returns its target's object. -/
def objFilter : MqlFilter → Nat → ObjTree × Nat
  | .filter target _ _, n => objTarget target n
/-- `visit_target` returns the nested expression's object or the metric object
of a function or a bare metric. (A variable raises before any object.) -/
def objTarget : MqlTarget → Nat → ObjTree × Nat
  | .variable _, n => (.number, n)
  | .nestedExpression e, n => objExpression e n
  | .function _, n => (.metric n, n + 1)
  | .metric _, n => (.metric n, n + 1)
end

/-- The objects of the tree `MQLVisitor().visit(exp_tree)` returns. -/
def objMql (t : MqlExpression) : ObjTree := (objExpression t 0).1

/-! ## Every object is allocated once -/

/-- The objects a visit returns while the counter goes from `n` to `n'`:
numbered in `[n, n')`, each number once. -/
structure Allocated (n n' : Nat) (ids : List Nat) : Prop where
  le : n ≤ n'
  bounds : ∀ i ∈ ids, n ≤ i ∧ i < n'
  nodup : ids.Nodup

namespace Allocated

theorem nil (n : Nat) : Allocated n n [] :=
  ⟨le_refl n, fun _ h => absurd h (List.not_mem_nil _), List.nodup_nil⟩

theorem mono {n m k : Nat} {a : List Nat} (h : Allocated n m a) (hk : m ≤ k) :
    Allocated n k a :=
  ⟨h.le.trans hk, fun i hi => ⟨(h.bounds i hi).1, (h.bounds i hi).2.trans_le hk⟩, h.nodup⟩

theorem of_append_left {n m : Nat} {a b : List Nat} (h : Allocated n m (a ++ b)) :
    Allocated n m a :=
  ⟨h.le, fun i hi => h.bounds i (List.mem_append_left b hi), h.nodup.of_append_left⟩

/-- Two visits one after the other return disjoint objects. -/
theorem append {n m k : Nat} {a b : List Nat} (ha : Allocated n m a) (hb : Allocated m k b) :
    Allocated n k (a ++ b) where
  le := ha.le.trans hb.le
  bounds i hi := by
    rcases List.mem_append.mp hi with hi | hi
    · have := ha.bounds i hi; have := hb.le; omega
    · have := hb.bounds i hi; have := ha.le; omega
  nodup := List.nodup_append.mpr ⟨ha.nodup, hb.nodup, by
    intro i hia hib
    have := ha.bounds i hia; have := hb.bounds i hib; omega⟩

/-- The object allocated after a visit is new. -/
theorem fresh {n m : Nat} {a : List Nat} (ha : Allocated n m a) :
    Allocated n (m + 1) (m :: a) where
  le := by have := ha.le; omega
  bounds i hi := by
    rcases List.mem_cons.mp hi with rfl | hi
    · have := ha.le; omega
    · have := ha.bounds i hi; omega
  nodup := List.nodup_cons.mpr ⟨fun hm => by have := ha.bounds m hm; omega, ha.nodup⟩

end Allocated

theorem objCombine_allocated {term : ObjTree} {others : List ObjTree} {n m k : Nat}
    (ht : Allocated n m term.ids) (ho : Allocated m k (ObjTree.idsAll others)) :
    Allocated n (objCombine term others k).2 (objCombine term others k).1.ids := by
  rcases others with _ | ⟨operand, others⟩
  · exact ht.mono ho.le
  · have hop : Allocated m k operand.ids := Allocated.of_append_left (b := ObjTree.idsAll others) ho
    exact (ht.append (hop.append (Allocated.nil k))).fresh

theorem objNegate_allocated {o : ObjTree} {n m : Nat} (h : Allocated n m o.ids) :
    Allocated n (objNegate o m).2 (objNegate o m).1.ids := by
  rcases o with _ | i | ⟨i, os⟩
  · exact h
  all_goals exact (h.append (Allocated.nil m)).fresh

mutual
theorem objExpression_allocated : ∀ (e : MqlExpression) (n : Nat),
    Allocated n (objExpression e n).2 (objExpression e n).1.ids
  | .expression first rest, n =>
      objCombine_allocated (objTerm_allocated first n)
        (objExpressionOthers_allocated rest (objTerm first n).2)
theorem objExpressionOthers_allocated : ∀ (rest : List (ExprOp × MqlTerm)) (n : Nat),
    Allocated n (objExpressionOthers rest n).2 (ObjTree.idsAll (objExpressionOthers rest n).1)
  | [], n => Allocated.nil n
  | (_, t) :: rest, n =>
      (objTerm_allocated t n).append (objExpressionOthers_allocated rest (objTerm t n).2)
theorem objTerm_allocated : ∀ (t : MqlTerm) (n : Nat),
    Allocated n (objTerm t n).2 (objTerm t n).1.ids
  | .term first rest, n =>
      objCombine_allocated (objUnary_allocated first n)
        (objTermOthers_allocated rest (objUnary first n).2)
theorem objTermOthers_allocated : ∀ (rest : List (TermOp × MqlUnary)) (n : Nat),
    Allocated n (objTermOthers rest n).2 (ObjTree.idsAll (objTermOthers rest n).1)
  | [], n => Allocated.nil n
  | (_, u) :: rest, n =>
      (objUnary_allocated u n).append (objTermOthers_allocated rest (objUnary u n).2)
theorem objUnary_allocated : ∀ (u : MqlUnary) (n : Nat),
    Allocated n (objUnary u n).2 (objUnary u n).1.ids
  | .unary negate c, n => by
      have hc := objCoefficient_allocated c n
      cases negate
      · exact hc
      · exact objNegate_allocated hc
theorem objCoefficient_allocated : ∀ (c : MqlCoefficient) (n : Nat),
    Allocated n (objCoefficient c n).2 (objCoefficient c n).1.ids
  | .number _, n => Allocated.nil n
  | .filter f, n => objFilter_allocated f n
theorem objFilter_allocated : ∀ (f : MqlFilter) (n : Nat),
    Allocated n (objFilter f n).2 (objFilter f n).1.ids
  | .filter target _ _, n => objTarget_allocated target n
theorem objTarget_allocated : ∀ (t : MqlTarget) (n : Nat),
    Allocated n (objTarget t n).2 (objTarget t n).1.ids
  | .variable _, n => Allocated.nil n
  | .nestedExpression e, n => objExpression_allocated e n
  | .function _, n | .metric _, n => (Allocated.nil n).fresh
end

/-! ## What the object tree says about the nodes -/

namespace InitialParseResult

theorem isFormulaNode_and_isMetricNode (r : InitialParseResult) :
    (r.isFormulaNode && r.isMetricNode) = false := by
  unfold isFormulaNode isMetricNode
  cases r.mri <;> simp

@[simp] theorem isMetricNode_attach (r : InitialParseResult) (c : Option Expression)
    (g : List SelectedExpression) : (r.attach c g).isMetricNode = r.isMetricNode := by
  simp [isMetricNode]

theorem isMetricNode_metricNode (mri a : String) : (metricNode mri a).isMetricNode = true := rfl

end InitialParseResult

namespace ObjTree

theorem describesAll_length : ∀ {os : List ObjTree} {ps : List FormulaParameter},
    describesAll os ps = true → os.length = ps.length
  | [], [], _ => rfl
  | _ :: _, _ :: _, h => by
      simp only [describesAll, Bool.and_eq_true] at h
      simp [describesAll_length h.2]
  | [], _ :: _, h | _ :: _, [], h => by simp [describesAll] at h

mutual
/-- Every node of a described tree is a formula node or a metric node. -/
theorem describes_nodes : ∀ (o : ObjTree) (p : FormulaParameter), o.describes p = true →
    ∀ r ∈ paramNodes p, (r.isFormulaNode || r.isMetricNode) = true
  | .number, .inr _, _, _, hr => by simp [paramNodes] at hr
  | .metric _, .inl r, h, r', hr => by
      simp only [describes] at h
      obtain ⟨_, _, _ | ps, _, _, _, _⟩ := r
      · simp only [paramNodes, nodes, List.mem_singleton] at hr
        subst hr
        simp [h]
      · simp [InitialParseResult.isMetricNode] at h
  | .formula _ os, .inl r, h, r', hr => by
      simp only [describes, Bool.and_eq_true] at h
      obtain ⟨_, _, _ | ps, _, _, _, _⟩ := r
      · simp [InitialParseResult.isFormulaNode] at h
      · simp only [paramNodes, nodes, List.mem_cons] at hr
        rcases hr with rfl | hr
        · simp [h.1]
        · exact describesAll_nodes os ps h.2 r' hr
  | .number, .inl _, h, _, _ | .metric _, .inr _, h, _, _ | .formula _ _, .inr _, h, _, _ => by
      simp [describes] at h
theorem describesAll_nodes : ∀ (os : List ObjTree) (ps : List FormulaParameter),
    describesAll os ps = true →
    ∀ r ∈ paramsNodes ps, (r.isFormulaNode || r.isMetricNode) = true
  | [], [], _, _, hr => by simp [paramsNodes] at hr
  | o :: os, p :: ps, h, r, hr => by
      simp only [describesAll, Bool.and_eq_true] at h
      simp only [paramsNodes, List.mem_append] at hr
      rcases hr with hr | hr
      · exact describes_nodes o p h.1 r hr
      · exact describesAll_nodes os ps h.2 r hr
  | [], _ :: _, h, _, _ | _ :: _, [], h, _, _ => by simp [describesAll] at h
end

mutual
/-- A described tree has one object per position. -/
theorem describes_ids_length : ∀ (o : ObjTree) (p : FormulaParameter), o.describes p = true →
    o.ids.length = (paramNodes p).length
  | .number, .inr _, _ => rfl
  | .metric _, .inl r, h => by
      simp only [describes] at h
      obtain ⟨_, _, _ | ps, _, _, _, _⟩ := r
      · rfl
      · simp [InitialParseResult.isMetricNode] at h
  | .formula _ os, .inl r, h => by
      simp only [describes, Bool.and_eq_true] at h
      obtain ⟨_, _, _ | ps, _, _, _, _⟩ := r
      · simp [InitialParseResult.isFormulaNode] at h
      · simp only [ids, paramNodes, nodes, List.length_cons, describesAll_ids_length os ps h.2]
  | .number, .inl _, h | .metric _, .inr _, h | .formula _ _, .inr _, h => by
      simp [describes] at h
theorem describesAll_ids_length : ∀ (os : List ObjTree) (ps : List FormulaParameter),
    describesAll os ps = true → (idsAll os).length = (paramsNodes ps).length
  | [], [], _ => rfl
  | o :: os, p :: ps, h => by
      simp only [describesAll, Bool.and_eq_true] at h
      simp only [idsAll, paramsNodes, List.length_append, describes_ids_length o p h.1,
        describesAll_ids_length os ps h.2]
  | [], _ :: _, h | _ :: _, [], h => by simp [describesAll] at h
end

end ObjTree

/-! ## The visitor builds the described tree -/

open ObjTree InitialParseResult

theorem ExprOp.visit_arity (op : ExprOp) : formulaArity op.visit = some 2 := by
  cases op <;> rfl

theorem TermOp.visit_arity (op : TermOp) : formulaArity op.visit = some 2 := by
  cases op <;> rfl

/-- The formula `visit_expression` and `visit_term` build is described by the
formula object over the objects of its two operands. -/
theorem combineFirstRepetition_describes {term : FormulaParameter} {o : ObjTree}
    (ht : o.describes term = true) {others : List (String × FormulaParameter)}
    {os : List ObjTree} (ho : describesAll os (others.map Prod.snd) = true)
    (hop : ∀ p ∈ others, formulaArity p.1 = some 2) (k : Nat) :
    (objCombine o os k).1.describes (combineFirstRepetition term others) = true := by
  rcases others with _ | ⟨⟨op, c⟩, others⟩ <;> rcases os with _ | ⟨o', os⟩
  · exact ht
  · simp [describesAll] at ho
  · simp [describesAll] at ho
  · simp only [List.map_cons, describesAll, Bool.and_eq_true] at ho
    simp [objCombine, combineFirstRepetition, formulaNode, describes, describesAll, isFormulaNode,
      hop (op, c) (List.mem_cons_self _ _), ht, ho.1]

/-- The `negate` formula `visit_unary` builds over a node is described by the
formula object over the node's object. -/
theorem negateParameter_describes {o : ObjTree} {p : FormulaParameter}
    (h : o.describes p = true) (k : Nat) :
    (objNegate o k).1.describes (negateParameter p) = true := by
  rcases o with _ | i | ⟨i, os⟩ <;> rcases p with r | x <;>
    simp_all [describes, describesAll, objNegate, negateParameter, formulaNode, isFormulaNode,
      formulaArity]

/-- `pushdown_values` changes the leaves' conditions and group bys in place:
the tree keeps its objects and each node its kind. -/
theorem pushdownList_describes {c : Option Expression} {g : List SelectedExpression}
    (ps : List FormulaParameter) :
    ∀ ps', pushdownList c g ps = .ok ps' → ∀ os, describesAll os ps = true →
      describesAll os ps' = true := by
  refine pushdownList.induct c g
    (fun r => ∀ r', pushdownNode c g r = .ok r' → ∀ o : ObjTree,
      o.describes (.inl r) = true → o.describes (.inl r') = true)
    (fun ps => ∀ ps', pushdownList c g ps = .ok ps' → ∀ os, describesAll os ps = true →
      describesAll os ps' = true)
    (fun p => ∀ p', pushdownValues c g p = .ok p' → ∀ o : ObjTree,
      o.describes p = true → o.describes p' = true)
    ?formulaWithoutParameters ?formula ?leaf ?empty ?nil ?cons ?node ?number ps
  case formulaWithoutParameters =>
    intro e f gs cs m a r' h o ho
    simp only [pushdownNode.eq_1, pure_eq_ok, Except.ok.injEq] at h
    exact h ▸ ho
  case formula =>
    intro e f ps gs cs m a ih r' h o ho
    simp only [pushdownNode.eq_2, bind_eq_ok, pure_eq_ok, Except.ok.injEq] at h
    obtain ⟨ps', hps, rfl⟩ := h
    rcases o with _ | i | ⟨i, os⟩
    · simp [describes] at ho
    · simp [describes, isMetricNode] at ho
    · simp only [describes, Bool.and_eq_true, Option.getD_some] at ho ⊢
      have hps' := ih ps' hps os ho.2
      have hlen := (describesAll_length ho.2).symm.trans (describesAll_length hps')
      refine ⟨?_, hps'⟩
      simpa [isFormulaNode, hlen] using ho.1
  case leaf =>
    intro e ps gs cs m a r' h o ho
    simp only [pushdownNode.eq_3, pure_eq_ok, Except.ok.injEq] at h
    subst h
    rcases o with _ | i | ⟨i, os⟩
    · simp [describes] at ho
    · simpa [describes] using ho
    · simp [describes, isFormulaNode] at ho
  case empty => intro ps gs cs m a r' h; simp [pushdownNode.eq_4] at h
  case nil => intro ps' h _ _; cases h; assumption
  case cons =>
    intro p ps ihp ihps qs h os hs
    obtain ⟨p', ps', hp, hps, rfl⟩ := pushdownList_cons_ok h
    rcases os with _ | ⟨o, os⟩
    · simp [describesAll] at hs
    · simp only [describesAll, Bool.and_eq_true] at hs ⊢
      exact ⟨ihp p' hp o hs.1, ihps ps' hps os hs.2⟩
  case node =>
    intro r ih p' h o ho
    obtain ⟨r', hr, rfl⟩ := pushdownValues_inl_ok h
    exact ih r' hr o ho
  case number => intro x p' h o ho; cases h; exact ho

/-- The body of `visit_filter` keeps the target's object tree. -/
theorem applyFilterClause_describes {target r : InitialParseResult} {c : Option Expression}
    {g : List SelectedExpression} (h : applyFilterClause target c g = .ok r) {o : ObjTree}
    (ho : o.describes (.inl target) = true) : o.describes (.inl r) = true := by
  unfold applyFilterClause at h
  split_ifs at h with hclause hformula
  · rcases hps : target.parameters with _ | ps <;> rw [hps] at h
    · cases h; exact ho
    simp only [bind_eq_ok, pure_eq_ok, Except.ok.injEq] at h
    obtain ⟨ps', hpush, rfl⟩ := h
    rcases o with _ | i | ⟨i, os⟩
    · simp [describes] at ho
    · simp [describes, isMetricNode, hps] at ho
    · simp only [describes, Bool.and_eq_true, hps, Option.getD_some] at ho ⊢
      have hps' := pushdownList_describes ps ps' hpush os ho.2
      have hlen := (describesAll_length ho.2).symm.trans (describesAll_length hps')
      obtain ⟨f, hf⟩ := Option.isSome_iff_exists.mp hformula
      refine ⟨?_, hps'⟩
      simpa [isFormulaNode, hps, hf, hlen] using ho.1
  · cases h
    rcases o with _ | i | ⟨i, os⟩
    · simp [describes] at ho
    · simpa [describes] using ho
    · rcases hf : target.formula with _ | f
      · simp [describes, isFormulaNode, hf] at ho
      · simp [hf] at hformula
  · cases h; exact ho

/-- `visit_aggregate` and `visit_curried_aggregate` set the expression of the
metric object `visit_inner_filter` returns. -/
theorem visitAggregateCall_isMetricNode {call : AggregateCall} {v v' : MQLVisitor}
    {r : InitialParseResult} (h : visitAggregateCall call v = .ok (r, v')) :
    r.isMetricNode = true := by
  simp only [visitAggregateCall, visitInnerFilter, bind_eq_ok, pure_eq_ok, Except.ok.injEq,
    Prod.mk.injEq] at h
  obtain ⟨⟨target, v₁⟩, ⟨⟨leaf, v₂⟩, hm, c, -, rfl, rfl⟩, rfl, rfl⟩ := h
  obtain ⟨mri, a, rfl⟩ := visitMetric_metricNode hm
  split <;> split <;> rfl

/-- Every function visitor returns the metric object of its aggregate. -/
theorem visitFunction_isMetricNode {f : MqlFunction} {v v' : MQLVisitor}
    {r : InitialParseResult} (h : visitFunction f v = .ok (r, v')) : r.isMetricNode = true := by
  obtain ⟨form, g⟩ := f
  simp only [visitFunction, bind_eq_ok] at h
  obtain ⟨⟨target, v₁⟩, hform, hr⟩ := h
  have ht : target.isMetricNode = true := by
    rcases form with call | ⟨name, call, params⟩ | ⟨name, aggParams, call, params⟩ <;>
      simp only [visitFunctionForm, bind_eq_ok] at hform
    · exact visitAggregateCall_isMetricNode hform
    all_goals
      obtain ⟨⟨leaf, v₂⟩, hcall, hr⟩ := hform
      have hleaf := visitAggregateCall_isMetricNode hcall
      split at hr
      · simp only [pure_eq_ok, Except.ok.injEq, Prod.mk.injEq] at hr
        obtain ⟨rfl, rfl⟩ := hr
        simpa [isMetricNode] using hleaf
      · cases hr
  cases g <;> simp only [pure_eq_ok, Except.ok.injEq, Prod.mk.injEq] at hr <;>
    obtain ⟨rfl, rfl⟩ := hr <;> simpa [isMetricNode] using ht

/-! ## The walk over the syntax -/

mutual
theorem visitExpression_describes : ∀ (e : MqlExpression) (v v' : MQLVisitor)
    (r : FormulaParameter) (n : Nat), visitExpression e v = .ok (r, v') →
    (objExpression e n).1.describes r = true
  | .expression first rest, v, v', r, n, h => by
      simp only [visitExpression, bind_eq_ok, pure_eq_ok, Except.ok.injEq, Prod.mk.injEq] at h
      obtain ⟨⟨term, v₁⟩, hterm, ⟨others, v₂⟩, hothers, rfl, rfl⟩ := h
      obtain ⟨hos, hops⟩ := visitExpressionOthers_describes rest v₁ v₂ others _ hothers
      exact combineFirstRepetition_describes (visitTerm_describes first v v₁ term n hterm) hos
        hops _
theorem visitExpressionOthers_describes : ∀ (rest : List (ExprOp × MqlTerm)) (v v' : MQLVisitor)
    (others : List (String × FormulaParameter)) (n : Nat),
    visitExpressionOthers rest v = .ok (others, v') →
    describesAll (objExpressionOthers rest n).1 (others.map Prod.snd) = true ∧
      ∀ p ∈ others, formulaArity p.1 = some 2
  | [], v, v', others, n, h => by cases h; exact ⟨rfl, fun p hp => by cases hp⟩
  | (op, t) :: rest, v, v', others, n, h => by
      simp only [visitExpressionOthers, bind_eq_ok, pure_eq_ok, Except.ok.injEq,
        Prod.mk.injEq] at h
      obtain ⟨⟨t', v₁⟩, ht, ⟨os, v₂⟩, hos, rfl, rfl⟩ := h
      obtain ⟨hall, hops⟩ := visitExpressionOthers_describes rest v₁ v₂ os (objTerm t n).2 hos
      refine ⟨?_, ?_⟩
      · simp only [objExpressionOthers, List.map_cons, describesAll,
          visitTerm_describes t v v₁ t' n ht, hall, Bool.and_self]
      · intro p hp
        rcases List.mem_cons.mp hp with rfl | hp
        · exact ExprOp.visit_arity op
        · exact hops p hp
theorem visitTerm_describes : ∀ (t : MqlTerm) (v v' : MQLVisitor) (r : FormulaParameter)
    (n : Nat), visitTerm t v = .ok (r, v') → (objTerm t n).1.describes r = true
  | .term first rest, v, v', r, n, h => by
      simp only [visitTerm, bind_eq_ok, pure_eq_ok, Except.ok.injEq, Prod.mk.injEq] at h
      obtain ⟨⟨term, v₁⟩, hterm, ⟨others, v₂⟩, hothers, rfl, rfl⟩ := h
      obtain ⟨hos, hops⟩ := visitTermOthers_describes rest v₁ v₂ others _ hothers
      exact combineFirstRepetition_describes (visitUnary_describes first v v₁ term n hterm) hos
        hops _
theorem visitTermOthers_describes : ∀ (rest : List (TermOp × MqlUnary)) (v v' : MQLVisitor)
    (others : List (String × FormulaParameter)) (n : Nat),
    visitTermOthers rest v = .ok (others, v') →
    describesAll (objTermOthers rest n).1 (others.map Prod.snd) = true ∧
      ∀ p ∈ others, formulaArity p.1 = some 2
  | [], v, v', others, n, h => by cases h; exact ⟨rfl, fun p hp => by cases hp⟩
  | (op, u) :: rest, v, v', others, n, h => by
      simp only [visitTermOthers, bind_eq_ok, pure_eq_ok, Except.ok.injEq, Prod.mk.injEq] at h
      obtain ⟨⟨u', v₁⟩, hu, ⟨os, v₂⟩, hos, rfl, rfl⟩ := h
      obtain ⟨hall, hops⟩ := visitTermOthers_describes rest v₁ v₂ os (objUnary u n).2 hos
      refine ⟨?_, ?_⟩
      · simp only [objTermOthers, List.map_cons, describesAll,
          visitUnary_describes u v v₁ u' n hu, hall, Bool.and_self]
      · intro p hp
        rcases List.mem_cons.mp hp with rfl | hp
        · exact TermOp.visit_arity op
        · exact hops p hp
theorem visitUnary_describes : ∀ (u : MqlUnary) (v v' : MQLVisitor) (r : FormulaParameter)
    (n : Nat), visitUnary u v = .ok (r, v') → (objUnary u n).1.describes r = true
  | .unary negate c, v, v', r, n, h => by
      simp only [visitUnary, bind_eq_ok, pure_eq_ok, Except.ok.injEq, Prod.mk.injEq] at h
      obtain ⟨⟨coefficient, v₁⟩, hc, rfl, rfl⟩ := h
      have hd := visitCoefficient_describes c v v₁ coefficient n hc
      cases negate
      · exact hd
      · exact negateParameter_describes hd _
theorem visitCoefficient_describes : ∀ (c : MqlCoefficient) (v v' : MQLVisitor)
    (r : FormulaParameter) (n : Nat), visitCoefficient c v = .ok (r, v') →
    (objCoefficient c n).1.describes r = true
  | .number _, v, v', r, n, h => by cases h; rfl
  | .filter f, v, v', r, n, h => by
      simp only [visitCoefficient, bind_eq_ok, pure_eq_ok, Except.ok.injEq, Prod.mk.injEq] at h
      obtain ⟨⟨r₀, v₁⟩, hf, rfl, rfl⟩ := h
      exact visitFilter_describes f v v₁ r₀ n hf
theorem visitFilter_describes : ∀ (f : MqlFilter) (v v' : MQLVisitor) (r : InitialParseResult)
    (n : Nat), visitFilter f v = .ok (r, v') → (objFilter f n).1.describes (.inl r) = true
  | .filter target filters groupBy, v, v', r, n, h => by
      simp only [visitFilter, bind_eq_ok, pure_eq_ok, Except.ok.injEq, Prod.mk.injEq] at h
      obtain ⟨⟨r₀, v₁⟩, ht, c, -, r₁, hr₁, rfl, rfl⟩ := h
      exact applyFilterClause_describes hr₁ (visitTarget_describes target v v₁ r₀ n ht)
theorem visitTarget_describes : ∀ (t : MqlTarget) (v v' : MQLVisitor) (r : InitialParseResult)
    (n : Nat), visitTarget t v = .ok (r, v') → (objTarget t n).1.describes (.inl r) = true
  | .variable _, v, v', r, n, h => by cases h
  | .nestedExpression e, v, v', r, n, h => by
      simp only [visitTarget, bind_eq_ok] at h
      obtain ⟨⟨p, v₁⟩, he, hp⟩ := h
      rcases p with r₀ | x
      · simp only [pure_eq_ok, Except.ok.injEq, Prod.mk.injEq] at hp
        obtain ⟨rfl, rfl⟩ := hp
        exact visitExpression_describes e v v₁ (.inl r₀) n he
      · cases hp
  | .function f, v, v', r, n, h => visitFunction_isMetricNode h
  | .metric m, v, v', r, n, h => by
      obtain ⟨mri, a, rfl⟩ := visitMetric_metricNode h
      rfl
end

theorem visitMql_objects {t : MqlExpression} {p : FormulaParameter} {v : MQLVisitor}
    (h : visitMql t = .ok (p, v)) :
    (∀ r ∈ paramNodes p, (r.isFormulaNode ^^ r.isMetricNode) = true) ∧
      (objMql t).describes p = true ∧ (objMql t).ids.Nodup ∧
      (objMql t).ids.length = (paramNodes p).length := by
  have hd := visitExpression_describes t _ v p 0 h
  refine ⟨fun r hr => ?_, hd, (objExpression_allocated t 0).nodup, describes_ids_length _ p hd⟩
  have hor := describes_nodes _ p hd r hr
  have hand := isFormulaNode_and_isMetricNode r
  revert hor hand
  cases r.isFormulaNode <;> cases r.isMetricNode <;> decide

theorem visitMql_objects_productOfSums :
    ∃ p v, visitMql productOfSums = .ok (p, v) ∧
      (∀ r ∈ paramNodes p, (r.isFormulaNode ^^ r.isMetricNode) = true) ∧
      (objMql productOfSums).describes p = true ∧ (objMql productOfSums).ids.Nodup ∧
      (objMql productOfSums).ids.length = (paramNodes p).length :=
  ⟨_, _, rfl, visitMql_objects rfl⟩

end SnubaMql
