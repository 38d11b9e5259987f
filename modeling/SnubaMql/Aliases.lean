import SnubaMql.JoinChain
import SnubaMql.Scoping

/-! # Table aliases are distinct

`_generate_table_alias` hands the `k`-th MRI whose first character is `c` the
alias `c` followed by the numeral of `k`, and keeps `k` in `alias_count[c]`.
`generateTableAliases_run` follows a whole sequence of MRIs from a fresh
visitor, and `expectedAliases_nodup` shows the aliases of such a run distinct:
two aliases with one first character carry different counts, and a numeral
determines its number (`decodeDigits_toString`). The visitor issues one alias
per metric occurrence, in the order of the text, and every leaf of its tree
keeps the alias of one occurrence (`visitExpression_aliases`); the joins built
from the leaves carry the leaves' aliases (`buildFormulaQueryFromClause_aliases`).
-/

namespace SnubaMql

/-! ## Decimal numerals -/

/-- The number the decimal digits `ds` spell, read after the digits of `acc`. -/
def decodeDigits : List Char → Nat → Nat
  | [], acc => acc
  | c :: cs, acc => decodeDigits cs (acc * 10 + (c.toNat - 48))

theorem digitChar_toNat (d : Nat) (h : d < 10) : (Nat.digitChar d).toNat - 48 = d := by
  interval_cases d <;> rfl

theorem decodeDigits_toDigitsCore : ∀ (fuel n : Nat) (ds : List Char), n < fuel →
    decodeDigits (Nat.toDigitsCore 10 fuel n ds) 0 = decodeDigits ds n
  | 0, _, _, h => absurd h (Nat.not_lt_zero _)
  | fuel + 1, n, ds, h => by
      have hd := digitChar_toNat (n % 10) (Nat.mod_lt _ (by norm_num))
      simp only [Nat.toDigitsCore]
      split
      · simp only [decodeDigits, hd]
        congr 1
        omega
      · rw [decodeDigits_toDigitsCore fuel (n / 10) _ (by omega)]
        simp only [decodeDigits, hd, Nat.div_add_mod']

/-- `str(n)` spells `n`. -/
theorem decodeDigits_toString (n : Nat) : decodeDigits (toString n).toList 0 = n :=
  decodeDigits_toDigitsCore (n + 1) n [] (Nat.lt_succ_self n)

@[simp] theorem singleton_append_toList (c : Char) (s : String) :
    (String.singleton c ++ s).toList = c :: s.toList := by
  simp [String.singleton, String.push]

/-- An alias determines its character and its number. -/
theorem tableAlias_inj {c c' : Char} {n n' : Nat}
    (h : String.singleton c ++ toString n = String.singleton c' ++ toString n') :
    c = c' ∧ n = n' := by
  have hl := congrArg String.toList h
  rw [singleton_append_toList, singleton_append_toList] at hl
  obtain ⟨rfl, hs⟩ := List.cons.inj hl
  exact ⟨rfl, by rw [← decodeDigits_toString n, hs, decodeDigits_toString]⟩

/-! ## A run of `_generate_table_alias` -/

/-- How many of the MRIs start with `c`. -/
def countFirst (c : Char) (mris : List String) : Nat :=
  mris.countP fun m => m.toList.head? == some c

@[simp] theorem countFirst_nil (c : Char) : countFirst c [] = 0 := rfl

theorem countFirst_append_cons (c : Char) (before : List String) (rest : List Char) :
    countFirst c (before ++ [String.mk (c :: rest)]) = countFirst c before + 1 := by
  simp [countFirst, List.countP_append]

theorem countFirst_append_ne {c c' : Char} (before : List String) (rest : List Char)
    (h : c' ≠ c) : countFirst c (before ++ [String.mk (c' :: rest)]) = countFirst c before := by
  simp [countFirst, List.countP_append, h]

/-- The alias the spec gives an occurrence of `mri` after the occurrences
`before`: its first character and the number of earlier MRIs that share it. -/
def expectedAlias (before : List String) (mri : String) : String :=
  match mri.toList with
  | [] => ""
  | c :: _ => String.singleton c ++ toString (countFirst c before)

/-- The aliases of the occurrences `mris`, after the occurrences `before`. -/
def expectedAliases (before : List String) : List String → List String
  | [] => []
  | m :: ms => expectedAlias before m :: expectedAliases (before ++ [m]) ms

/-- `alias_count` after the occurrences `before`: for each first character,
the number of aliases issued for it, minus one. -/
def expectedCount (before : List String) : MQLVisitor :=
  ⟨fun k => match k.toList with
    | [c] => if countFirst c before = 0 then none else some (countFirst c before - 1)
    | _ => none⟩

theorem expectedCount_nil : expectedCount [] = MQLVisitor.new :=
  MQLVisitor.ext (funext fun k => by simp only [expectedCount, countFirst_nil]; split <;> rfl)

/-- `_generate_table_alias(mri)`, issued to each MRI in turn. -/
def generateTableAliases : MQLVisitor → List String → Except PyException (List String × MQLVisitor)
  | v, [] => .ok ([], v)
  | v, m :: ms => do
      let (a, v) ← v.generateTableAlias m
      let (as, v) ← generateTableAliases v ms
      pure (a :: as, v)

theorem generateTableAliases_append {v v₁ v₂ : MQLVisitor} :
    ∀ {ms₁ ms₂ as₁ as₂ : List String}, generateTableAliases v ms₁ = .ok (as₁, v₁) →
      generateTableAliases v₁ ms₂ = .ok (as₂, v₂) →
      generateTableAliases v (ms₁ ++ ms₂) = .ok (as₁ ++ as₂, v₂)
  | [], _, _, _, h₁, h₂ => by cases h₁; exact h₂
  | m :: ms₁, ms₂, as₁, as₂, h₁, h₂ => by
      simp only [generateTableAliases, bind_eq_ok, pure_eq_ok, Except.ok.injEq] at h₁
      obtain ⟨⟨a, v'⟩, ha, ⟨as, v''⟩, hrest, h⟩ := h₁
      cases h
      simp [generateTableAliases, ha, generateTableAliases_append hrest h₂]

/-- One step: from the counter of the occurrences `before`, the next MRI gets
its expected alias and the counter moves on by that occurrence. -/
theorem generateTableAlias_step {before : List String} {mri a : String} {v : MQLVisitor}
    (h : (expectedCount before).generateTableAlias mri = .ok (a, v)) :
    mri ≠ "" ∧ a = expectedAlias before mri ∧ v = expectedCount (before ++ [mri]) := by
  obtain ⟨_ | ⟨c, rest⟩⟩ := mri
  · cases h
  have hsuffix : ((expectedCount before).aliasCount (String.singleton c)).elim 0 (· + 1) =
      countFirst c before := by
    show (if countFirst c before = 0 then none else some (countFirst c before - 1)).elim 0 _ = _
    split <;> simp only [Option.elim] <;> omega
  simp only [MQLVisitor.generateTableAlias, String.toList, hsuffix, Except.ok.injEq,
    Prod.mk.injEq] at h
  obtain ⟨rfl, rfl⟩ := h
  refine ⟨fun h => List.cons_ne_nil c rest (congrArg String.data h), rfl,
    MQLVisitor.ext (funext fun ⟨ks⟩ => ?_)⟩
  simp only [expectedCount]
  by_cases hk : String.mk ks = String.singleton c
  · obtain rfl : ks = [c] := congrArg String.data hk
    simp [hk, countFirst_append_cons]
  · rw [if_neg hk]
    rcases ks with _ | ⟨c', _ | _⟩
    · rfl
    · have hc : c' ≠ c := fun e => hk (by rw [e]; rfl)
      simp [countFirst_append_ne before rest hc.symm]
    · rfl

/-- A run from the counter of `before` issues the expected aliases and leaves
the counter of `before ++ mris`. -/
theorem generateTableAliases_run : ∀ (before mris as : List String) (v : MQLVisitor),
    generateTableAliases (expectedCount before) mris = .ok (as, v) →
    (∀ m ∈ mris, m ≠ "") ∧ as = expectedAliases before mris ∧ v = expectedCount (before ++ mris)
  | before, [], as, v, h => by cases h; simp [expectedAliases]
  | before, m :: ms, as, v, h => by
      simp only [generateTableAliases, bind_eq_ok, pure_eq_ok, Except.ok.injEq] at h
      obtain ⟨⟨a, v'⟩, ha, ⟨as', v''⟩, hrest, h⟩ := h
      cases h
      obtain ⟨hm, rfl, rfl⟩ := generateTableAlias_step ha
      obtain ⟨hms, rfl, rfl⟩ := generateTableAliases_run (before ++ [m]) ms as' v'' hrest
      refine ⟨?_, rfl, by simp⟩
      rintro m' (_ | ⟨_, hm'⟩)
      exacts [hm, hms m' hm']

theorem expectedAlias_of_toList {before : List String} {c : Char} {rest : List Char} :
    expectedAlias before (String.mk (c :: rest)) =
      String.singleton c ++ toString (countFirst c before) := rfl

/-- A later alias with the character `c` carries at least the count of `c`
so far. -/
theorem mem_expectedAliases : ∀ (before mris : List String) (a : String),
    (∀ m ∈ mris, m ≠ "") → a ∈ expectedAliases before mris →
    ∃ c n, a = String.singleton c ++ toString n ∧ countFirst c before ≤ n
  | _, [], _, _, h => by cases h
  | before, ⟨cs⟩ :: ms, a, hne, h => by
      rcases cs with _ | ⟨c, rest⟩
      · exact absurd rfl (hne _ (List.mem_cons_self _ _))
      rcases List.mem_cons.mp h with rfl | h
      · exact ⟨c, _, expectedAlias_of_toList, le_rfl⟩
      · obtain ⟨c', n, rfl, hn⟩ := mem_expectedAliases _ ms a
          (fun m hm => hne m (List.mem_cons_of_mem _ hm)) h
        refine ⟨c', n, rfl, le_trans ?_ hn⟩
        by_cases hc : c = c'
        · subst hc; simp [countFirst_append_cons]
        · rw [countFirst_append_ne before rest hc]

/-- The aliases of a run are pairwise distinct. -/
theorem expectedAliases_nodup : ∀ (before mris : List String),
    (∀ m ∈ mris, m ≠ "") → (expectedAliases before mris).Nodup
  | _, [], _ => List.nodup_nil
  | before, ⟨cs⟩ :: ms, hne => by
      rcases cs with _ | ⟨c, rest⟩
      · exact absurd rfl (hne _ (List.mem_cons_self _ _))
      have hms : ∀ m ∈ ms, m ≠ "" := fun m hm => hne m (List.mem_cons_of_mem _ hm)
      refine List.nodup_cons.mpr ⟨fun hmem => ?_, expectedAliases_nodup _ ms hms⟩
      obtain ⟨c', n, he, hn⟩ := mem_expectedAliases _ ms _ hms hmem
      rw [expectedAlias_of_toList] at he
      obtain ⟨rfl, rfl⟩ := tableAlias_inj he
      rw [countFirst_append_cons] at hn
      omega

/-! ## Metric occurrences of a parse tree -/

/-- The MRI a metric token names; a public name names none (its visit
raises). -/
def Metric.mris : Metric → List String
  | .quotedMri text => [(text.drop 1).dropRight 1]
  | .unquotedMri text => [text]
  | .quotedPublicName _ | .unquotedPublicName _ => []

/-- The one metric of a function call. -/
def MqlFunction.metric (f : MqlFunction) : Metric :=
  f.form.call.inner.metric

mutual
/-- The metric occurrences of an expression, in the order of the text, which
is the order the visitor reaches them. -/
def MqlExpression.mris : MqlExpression → List String
  | .expression first rest => first.mris ++ MqlExpression.othersMris rest
/-- The metric occurrences of the `(expr_op term)*` repetitions. -/
def MqlExpression.othersMris : List (ExprOp × MqlTerm) → List String
  | [] => []
  | (_, t) :: rest => t.mris ++ MqlExpression.othersMris rest
/-- The metric occurrences of a term. -/
def MqlTerm.mris : MqlTerm → List String
  | .term first rest => first.mris ++ MqlTerm.othersMris rest
/-- The metric occurrences of the `(term_op unary)*` repetitions. -/
def MqlTerm.othersMris : List (TermOp × MqlUnary) → List String
  | [] => []
  | (_, u) :: rest => u.mris ++ MqlTerm.othersMris rest
/-- The metric occurrences of a unary. -/
def MqlUnary.mris : MqlUnary → List String
  | .unary _ c => c.mris
/-- The metric occurrences of a coefficient. -/
def MqlCoefficient.mris : MqlCoefficient → List String
  | .number _ => []
  | .filter f => f.mris
/-- The metric occurrences of a filter's target. -/
def MqlFilter.mris : MqlFilter → List String
  | .filter target _ _ => target.mris
/-- The metric occurrences of a target. -/
def MqlTarget.mris : MqlTarget → List String
  | .variable _ => []
  | .nestedExpression e => e.mris
  | .function f => f.metric.mris
  | .metric m => m.mris
end

/-! ## Leaves keep their aliases -/

/-- The table aliases of a parameter's leaves, depth-first. -/
def leafAliases (p : FormulaParameter) : List (Option String) :=
  ((findAllLeafNodes p).getD []).map (·.tableAlias)

/-- The table aliases of the leaves of a parameter list. -/
def leafAliasesList (ps : List FormulaParameter) : List (Option String) :=
  (findAllLeafNodesList ps).map (·.tableAlias)

@[simp] theorem leafAliases_number (x : ℚ) : leafAliases (.inr x) = [] := rfl

theorem leafAliases_leaf {r : InitialParseResult} (h : r.formula = none) :
    leafAliases (.inl r) = [r.tableAlias] := by
  simp [leafAliases, findAllLeafNodes, findAllLeafNodesNode_leaf h]

@[simp] theorem leafAliases_formulaNode (f : String) (ps : List FormulaParameter) :
    leafAliases (.inl (.formulaNode f ps)) = leafAliasesList ps := rfl

@[simp] theorem leafAliasesList_nil : leafAliasesList [] = [] := rfl

@[simp] theorem leafAliasesList_cons (p : FormulaParameter) (ps : List FormulaParameter) :
    leafAliasesList (p :: ps) = leafAliases p ++ leafAliasesList ps := by
  simp [leafAliasesList, leafAliases, findAllLeafNodesList]

theorem leafAliases_combineFirstRepetition (term : FormulaParameter)
    (others : List (String × FormulaParameter)) :
    (leafAliases (combineFirstRepetition term others)).Sublist
      (leafAliases term ++ leafAliasesList (others.map Prod.snd)) := by
  rcases others with _ | ⟨⟨op, c⟩, others⟩
  · simp [combineFirstRepetition]
  · simp [combineFirstRepetition]

theorem leafAliases_negateParameter (p : FormulaParameter) :
    leafAliases (negateParameter p) = leafAliases p := by
  rcases p with r | x
  · simp [negateParameter]
  · rfl

/-- A filter clause changes no leaf's alias. -/
theorem applyFilterClause_leafAliases {target target' : InitialParseResult}
    {c : Option Expression} {g : List SelectedExpression}
    (h : applyFilterClause target c g = .ok target') :
    leafAliases (.inl target') = leafAliases (.inl target) := by
  simp [leafAliases, findAllLeafNodes, applyFilterClause_leaves h, Function.comp_def]

/-! ## The visitor issues one alias per metric occurrence -/

/-- `r` is a leaf, and its alias is the only one issued while the visitor went
from `v` to `v'` over the occurrences `mris`. -/
def IssuedLeaf (v v' : MQLVisitor) (mris : List String) (r : InitialParseResult) : Prop :=
  r.formula = none ∧ ∃ a, r.tableAlias = some a ∧ generateTableAliases v mris = .ok ([a], v')

theorem visitMetric_leaf {m : Metric} {v v' : MQLVisitor} {r : InitialParseResult}
    (h : visitMetric m v = .ok (r, v')) : IssuedLeaf v v' m.mris r := by
  cases m with
  | quotedMri text | unquotedMri text =>
      simp only [visitMetric, bind_eq_ok, pure_eq_ok, Except.ok.injEq, Prod.mk.injEq] at h
      obtain ⟨⟨a, v₁⟩, ha, rfl, rfl⟩ := h
      exact ⟨rfl, a, rfl, by simp [Metric.mris, generateTableAliases, ha]⟩
  | quotedPublicName _ | unquotedPublicName _ => cases h

theorem visitInnerFilter_leaf {f : InnerFilter} {v v' : MQLVisitor} {r : InitialParseResult}
    (h : visitInnerFilter f v = .ok (r, v')) : IssuedLeaf v v' f.metric.mris r := by
  simp only [visitInnerFilter, bind_eq_ok, pure_eq_ok, Except.ok.injEq, Prod.mk.injEq] at h
  obtain ⟨⟨target, v₁⟩, hm, c, -, rfl, rfl⟩ := h
  have hleaf := visitMetric_leaf hm
  split <;> split <;> exact hleaf

theorem visitAggregateCall_leaf {call : AggregateCall} {v v' : MQLVisitor}
    {r : InitialParseResult} (h : visitAggregateCall call v = .ok (r, v')) :
    IssuedLeaf v v' call.inner.metric.mris r := by
  simp only [visitAggregateCall, bind_eq_ok, pure_eq_ok, Except.ok.injEq, Prod.mk.injEq] at h
  obtain ⟨⟨target, v₁⟩, hi, rfl, rfl⟩ := h
  have hleaf := visitInnerFilter_leaf hi
  exact hleaf

theorem visitFunctionForm_leaf {form : FunctionForm} {v v' : MQLVisitor}
    {r : InitialParseResult} (h : visitFunctionForm form v = .ok (r, v')) :
    IssuedLeaf v v' form.call.inner.metric.mris r := by
  cases form with
  | aggregate call => exact visitAggregateCall_leaf h
  | arbitraryFunction _ call _ | curriedArbitraryFunction _ _ call _ =>
      simp only [visitFunctionForm, bind_eq_ok] at h
      obtain ⟨⟨target, v₁⟩, hcall, ht⟩ := h
      have hleaf := visitAggregateCall_leaf hcall
      split at ht
      · simp only [pure_eq_ok, Except.ok.injEq, Prod.mk.injEq] at ht
        obtain ⟨rfl, rfl⟩ := ht
        exact hleaf
      · cases ht

theorem visitFunction_leaf {f : MqlFunction} {v v' : MQLVisitor} {r : InitialParseResult}
    (h : visitFunction f v = .ok (r, v')) : IssuedLeaf v v' f.metric.mris r := by
  simp only [visitFunction, bind_eq_ok] at h
  obtain ⟨⟨target, v₁⟩, hform, hr⟩ := h
  have hleaf := visitFunctionForm_leaf hform
  split at hr <;> simp only [pure_eq_ok, Except.ok.injEq, Prod.mk.injEq] at hr <;>
    obtain ⟨rfl, rfl⟩ := hr <;> exact hleaf

mutual
theorem visitExpression_issues : ∀ (e : MqlExpression) (v v' : MQLVisitor) (r : FormulaParameter),
    visitExpression e v = .ok (r, v') →
    ∃ as, generateTableAliases v e.mris = .ok (as, v') ∧ (leafAliases r).Sublist (as.map some)
  | .expression first rest, v, v', r, h => by
      simp only [visitExpression, bind_eq_ok, pure_eq_ok, Except.ok.injEq, Prod.mk.injEq] at h
      obtain ⟨⟨term, v₁⟩, hterm, ⟨others, v₂⟩, hothers, rfl, rfl⟩ := h
      obtain ⟨as₁, hg₁, hs₁⟩ := visitTerm_issues first v v₁ term hterm
      obtain ⟨as₂, hg₂, hs₂⟩ := visitExpressionOthers_issues rest v₁ v₂ others hothers
      exact ⟨as₁ ++ as₂, generateTableAliases_append hg₁ hg₂,
        (leafAliases_combineFirstRepetition term others).trans (by simpa using hs₁.append hs₂)⟩
theorem visitExpressionOthers_issues : ∀ (rest : List (ExprOp × MqlTerm)) (v v' : MQLVisitor)
    (others : List (String × FormulaParameter)), visitExpressionOthers rest v = .ok (others, v') →
    ∃ as, generateTableAliases v (MqlExpression.othersMris rest) = .ok (as, v') ∧
      (leafAliasesList (others.map Prod.snd)).Sublist (as.map some)
  | [], v, v', others, h => by cases h; exact ⟨[], rfl, by simp⟩
  | (_, t) :: rest, v, v', others, h => by
      simp only [visitExpressionOthers, bind_eq_ok, pure_eq_ok, Except.ok.injEq,
        Prod.mk.injEq] at h
      obtain ⟨⟨t', v₁⟩, ht, ⟨os, v₂⟩, hos, rfl, rfl⟩ := h
      obtain ⟨as₁, hg₁, hs₁⟩ := visitTerm_issues t v v₁ t' ht
      obtain ⟨as₂, hg₂, hs₂⟩ := visitExpressionOthers_issues rest v₁ v₂ os hos
      exact ⟨as₁ ++ as₂, generateTableAliases_append hg₁ hg₂, by simpa using hs₁.append hs₂⟩
theorem visitTerm_issues : ∀ (t : MqlTerm) (v v' : MQLVisitor) (r : FormulaParameter),
    visitTerm t v = .ok (r, v') →
    ∃ as, generateTableAliases v t.mris = .ok (as, v') ∧ (leafAliases r).Sublist (as.map some)
  | .term first rest, v, v', r, h => by
      simp only [visitTerm, bind_eq_ok, pure_eq_ok, Except.ok.injEq, Prod.mk.injEq] at h
      obtain ⟨⟨term, v₁⟩, hterm, ⟨others, v₂⟩, hothers, rfl, rfl⟩ := h
      obtain ⟨as₁, hg₁, hs₁⟩ := visitUnary_issues first v v₁ term hterm
      obtain ⟨as₂, hg₂, hs₂⟩ := visitTermOthers_issues rest v₁ v₂ others hothers
      exact ⟨as₁ ++ as₂, generateTableAliases_append hg₁ hg₂,
        (leafAliases_combineFirstRepetition term others).trans (by simpa using hs₁.append hs₂)⟩
theorem visitTermOthers_issues : ∀ (rest : List (TermOp × MqlUnary)) (v v' : MQLVisitor)
    (others : List (String × FormulaParameter)), visitTermOthers rest v = .ok (others, v') →
    ∃ as, generateTableAliases v (MqlTerm.othersMris rest) = .ok (as, v') ∧
      (leafAliasesList (others.map Prod.snd)).Sublist (as.map some)
  | [], v, v', others, h => by cases h; exact ⟨[], rfl, by simp⟩
  | (_, u) :: rest, v, v', others, h => by
      simp only [visitTermOthers, bind_eq_ok, pure_eq_ok, Except.ok.injEq, Prod.mk.injEq] at h
      obtain ⟨⟨u', v₁⟩, hu, ⟨os, v₂⟩, hos, rfl, rfl⟩ := h
      obtain ⟨as₁, hg₁, hs₁⟩ := visitUnary_issues u v v₁ u' hu
      obtain ⟨as₂, hg₂, hs₂⟩ := visitTermOthers_issues rest v₁ v₂ os hos
      exact ⟨as₁ ++ as₂, generateTableAliases_append hg₁ hg₂, by simpa using hs₁.append hs₂⟩
theorem visitUnary_issues : ∀ (u : MqlUnary) (v v' : MQLVisitor) (r : FormulaParameter),
    visitUnary u v = .ok (r, v') →
    ∃ as, generateTableAliases v u.mris = .ok (as, v') ∧ (leafAliases r).Sublist (as.map some)
  | .unary negate c, v, v', r, h => by
      simp only [visitUnary, bind_eq_ok, pure_eq_ok, Except.ok.injEq, Prod.mk.injEq] at h
      obtain ⟨⟨coefficient, v₁⟩, hc, rfl, rfl⟩ := h
      obtain ⟨as, hg, hs⟩ := visitCoefficient_issues c v v₁ coefficient hc
      exact ⟨as, hg, by cases negate <;> simpa [leafAliases_negateParameter] using hs⟩
theorem visitCoefficient_issues : ∀ (c : MqlCoefficient) (v v' : MQLVisitor)
    (r : FormulaParameter), visitCoefficient c v = .ok (r, v') →
    ∃ as, generateTableAliases v c.mris = .ok (as, v') ∧ (leafAliases r).Sublist (as.map some)
  | .number _, v, v', r, h => by cases h; exact ⟨[], rfl, by simp⟩
  | .filter f, v, v', r, h => by
      simp only [visitCoefficient, bind_eq_ok, pure_eq_ok, Except.ok.injEq, Prod.mk.injEq] at h
      obtain ⟨⟨r₀, v₁⟩, hf, rfl, rfl⟩ := h
      exact visitFilter_issues f v v₁ r₀ hf
theorem visitFilter_issues : ∀ (f : MqlFilter) (v v' : MQLVisitor) (r : InitialParseResult),
    visitFilter f v = .ok (r, v') →
    ∃ as, generateTableAliases v f.mris = .ok (as, v') ∧ (leafAliases (.inl r)).Sublist (as.map some)
  | .filter target _ _, v, v', r, h => by
      simp only [visitFilter, bind_eq_ok, pure_eq_ok, Except.ok.injEq, Prod.mk.injEq] at h
      obtain ⟨⟨r₀, v₁⟩, ht, c, -, r₁, hr₁, rfl, rfl⟩ := h
      obtain ⟨as, hg, hs⟩ := visitTarget_issues target v v₁ r₀ ht
      exact ⟨as, hg, by rwa [applyFilterClause_leafAliases hr₁]⟩
theorem visitTarget_issues : ∀ (t : MqlTarget) (v v' : MQLVisitor) (r : InitialParseResult),
    visitTarget t v = .ok (r, v') →
    ∃ as, generateTableAliases v t.mris = .ok (as, v') ∧ (leafAliases (.inl r)).Sublist (as.map some)
  | .variable _, v, v', r, h => by cases h
  | .nestedExpression e, v, v', r, h => by
      simp only [visitTarget, bind_eq_ok] at h
      obtain ⟨⟨p, v₁⟩, he, hp⟩ := h
      rcases p with r₀ | x
      · cases hp
        exact visitExpression_issues e v _ _ he
      · cases hp
  | .function f, v, v', r, h => by
      obtain ⟨hf, a, ha, hg⟩ := visitFunction_leaf h
      exact ⟨[a], hg, by simp [leafAliases_leaf hf, ha]⟩
  | .metric m, v, v', r, h => by
      obtain ⟨hf, a, ha, hg⟩ := visitMetric_leaf h
      exact ⟨[a], hg, by simp [leafAliases_leaf hf, ha]⟩
end

/-! ## Joins carry the leaves' aliases -/

theorem buildNode_tableAlias {dataset : Dataset} {L : InitialParseResult} {N : IndividualNode}
    (h : buildNode dataset L = .ok N) : L.tableAlias = some N.tableAlias := by
  unfold buildNode at h
  split at h
  · cases h
  split at h
  · cases h
  · next a ha =>
      simp only [bind_eq_ok, pure_eq_ok, Except.ok.injEq] at h
      obtain ⟨_, -, rfl⟩ := h
      revert ha
      cases L.tableAlias <;> simp [truthy, Option.filter]

/-- The individual nodes of a join built by `build_join_clause`, innermost
first, carry the leaves' aliases in reverse and the previous node's alias
last. -/
theorem buildJoinClause_aliases (dataset : Dataset) :
    ∀ (prev : IndividualNode) (Ls : List InitialParseResult) (j : JoinClause),
      buildJoinClause dataset prev Ls = .ok j →
      j.individualNodes.map (some ·.tableAlias) =
        (some prev.tableAlias :: Ls.map (·.tableAlias)).reverse
  | _, [], _, h => by cases h
  | prev, L :: Ls, j, h => by
      simp only [buildJoinClause] at h
      split at h
      · cases h
      simp only [bind_eq_ok] at h
      obtain ⟨N, hN, ks, -, hj⟩ := h
      have hL := buildNode_tableAlias hN
      rcases Ls with _ | ⟨L', Ls'⟩
      · cases hj
        simp [JoinClause.individualNodes, hL]
      · simp only [Functor.map, Except.map, bind_eq_ok] at hj
        obtain ⟨_, hc, hj⟩ := hj
        split at hc
        · cases hc
        · next c hc' =>
            cases hc
            cases hj
            simp [JoinClause.individualNodes, buildJoinClause_aliases dataset N _ c hc', hL]

/-- `build_formula_query_from_clause` returns the formula's leaves, and a join
it builds carries their aliases, innermost first. -/
theorem buildFormulaQueryFromClause_aliases {parsed : InitialParseResult} {dataset : Dataset}
    {q : Query} {nodes : List InitialParseResult}
    (h : buildFormulaQueryFromClause parsed dataset = .ok (q, nodes)) :
    nodes = findAllLeafNodesNode parsed ∧ ∀ j, q.fromClause = .join j →
      j.individualNodes.map (some ·.tableAlias) = (nodes.map (·.tableAlias)).reverse := by
  simp only [buildFormulaQueryFromClause, findAllLeafNodes] at h
  split at h
  · cases h
  · cases h
  · next first rest hleaves =>
      rw [Option.some.inj hleaves]
      split_ifs at h
      simp only [bind_eq_ok] at h
      obtain ⟨keys, -, h⟩ := h
      split at h
      · cases h
        exact ⟨rfl, fun j hj => by cases hj⟩
      · simp only [bind_eq_ok, pure_eq_ok, Except.ok.injEq, Prod.mk.injEq] at h
        obtain ⟨N, hN, j, hj, rfl, rfl⟩ := h
        refine ⟨rfl, fun j' hj' => ?_⟩
        cases hj'
        rw [buildJoinClause_aliases dataset N rest j hj, List.map_cons, buildNode_tableAlias hN]

/-! ## Every run -/

/-- A run of the visitor issues the expected aliases, which are distinct, and
its leaves keep aliases of distinct occurrences. -/
theorem visitMql_issues {t : MqlExpression} {r : FormulaParameter} {v : MQLVisitor}
    (h : visitMql t = .ok (r, v)) :
    generateTableAliases MQLVisitor.new t.mris = .ok (expectedAliases [] t.mris, v) ∧
      (expectedAliases [] t.mris).Nodup ∧ v = expectedCount t.mris ∧
      (leafAliases r).Sublist ((expectedAliases [] t.mris).map some) ∧ (leafAliases r).Nodup := by
  obtain ⟨as, hrun, hsub⟩ := visitExpression_issues t _ v r h
  obtain ⟨hne, rfl, rfl⟩ := generateTableAliases_run [] t.mris as v (expectedCount_nil ▸ hrun)
  have hnodup := expectedAliases_nodup [] t.mris hne
  exact ⟨expectedCount_nil ▸ hrun, hnodup, by simp, hsub,
    hsub.nodup (hnodup.map (Option.some_injective _))⟩

/-- A join built from leaves with distinct aliases has distinct aliases. -/
theorem buildFormulaQueryFromClause_aliases_nodup {parsed : InitialParseResult}
    {dataset : Dataset} {q : Query} {nodes : List InitialParseResult} {j : JoinClause}
    (hleaves : (leafAliases (.inl parsed)).Nodup)
    (hq : buildFormulaQueryFromClause parsed dataset = .ok (q, nodes))
    (hj : q.fromClause = .join j) : j.aliases.Nodup := by
  obtain ⟨rfl, hjoin⟩ := buildFormulaQueryFromClause_aliases hq
  have hmap : j.aliases.map some = (leafAliases (.inl parsed)).reverse := by
    rw [JoinClause.aliases, List.map_map]
    exact hjoin j hj
  exact List.Nodup.of_map some (hmap ▸ List.nodup_reverse.mpr hleaves)

/-- Every run of a fresh visitor issues one alias per metric occurrence, in the
order of the text: the `k`-th occurrence of an MRI whose first character is
`c` gets `c` and the numeral of `k`, these aliases are pairwise distinct, and
`alias_count[c]` ends at the number issued for `c`, minus one. The leaves of
the tree keep aliases of distinct occurrences, so they are distinct, and so are
the individual nodes of any join built from them. -/
theorem visitMql_aliases (t : MqlExpression) (r : FormulaParameter) (v : MQLVisitor)
    (h : visitMql t = .ok (r, v)) :
    ∃ as, generateTableAliases MQLVisitor.new t.mris = .ok (as, v) ∧
      as = expectedAliases [] t.mris ∧ as.Nodup ∧ v = expectedCount t.mris ∧
      (leafAliases r).Sublist (as.map some) ∧ (leafAliases r).Nodup ∧
      ∀ parsed dataset q nodes j, r = .inl parsed →
        buildFormulaQueryFromClause parsed dataset = .ok (q, nodes) → q.fromClause = .join j →
        j.aliases.Nodup := by
  obtain ⟨hrun, hnodup, hv, hsub, hleaves⟩ := visitMql_issues h
  refine ⟨_, hrun, rfl, hnodup, hv, hsub, hleaves, ?_⟩
  rintro parsed dataset q nodes j rfl hq hj
  exact buildFormulaQueryFromClause_aliases_nodup hleaves hq hj

/-- `sum(d:transactions/a@none) + sum(d:transactions/b@none)`: two distribution metrics. -/
def sumDaPlusSumDb : MqlExpression :=
  .expression (.ofFunction (.aggregate (.ofMri "sum" "d:transactions/a@none")) none)
    [(.add, .ofFunction (.aggregate (.ofMri "sum" "d:transactions/b@none")) none)]

theorem visitMql_aliases_sumDaPlusSumDb :
    ∃ r v, visitMql sumDaPlusSumDb = .ok (r, v) ∧
      ∃ as, generateTableAliases MQLVisitor.new sumDaPlusSumDb.mris = .ok (as, v) ∧
        as = expectedAliases [] sumDaPlusSumDb.mris ∧ as.Nodup ∧
        v = expectedCount sumDaPlusSumDb.mris ∧ (leafAliases r).Sublist (as.map some) ∧
        (leafAliases r).Nodup ∧
        ∀ parsed dataset q nodes j, r = .inl parsed →
          buildFormulaQueryFromClause parsed dataset = .ok (q, nodes) →
          q.fromClause = .join j → j.aliases.Nodup :=
  ⟨_, _, rfl, visitMql_aliases sumDaPlusSumDb _ _ rfl⟩

/-- The aliases of `sum(d:transactions/a@none) + sum(d:transactions/b@none)` are `d0` and `d1`. -/
example : expectedAliases [] sumDaPlusSumDb.mris = ["d0", "d1"] := by decide

end SnubaMql
