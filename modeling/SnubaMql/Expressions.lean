import Mathlib

/-! # Snuba query expressions

The compiler builds its plans from the expression nodes of
`snuba.query.expressions`: columns, literals, function calls and curried
function calls, each with an optional alias. They are frozen dataclasses, so
`dataclasses.replace` is an ordinary functional update here. Conditions are
expressions too; `Expression.holds` reads one over a row the way the
execution engine evaluates the comparison and boolean functions the compiler
emits.
-/

namespace SnubaMql

/-- The exceptions the compiler raises, or lets escape. `ParsingException` is a
subclass of `InvalidQueryException`; the other three are Python's built-in
errors, raised by a failed `assert`, an index past the end of a sequence and
an attribute read on a value that lacks it. -/
inductive PyException where
  | invalidQuery (message : String)
  | parsing (message : String)
  | assertionError
  | indexError (message : String)
  | attributeError (message : String)
deriving DecidableEq, Repr

namespace PyException

/-- `isinstance(e, InvalidQueryException)`: the errors the spec lets reach the
caller. -/
def isInvalidQuery : PyException → Bool
  | .invalidQuery _ | .parsing _ => true
  | _ => false

/-- The exception's class name, as `type(e).__name__` prints it. -/
def className : PyException → String
  | .invalidQuery _ => "InvalidQueryException"
  | .parsing _ => "ParsingException"
  | .assertionError => "AssertionError"
  | .indexError _ => "IndexError"
  | .attributeError _ => "AttributeError"

/-- `str(e)`. -/
def message : PyException → String
  | .invalidQuery m | .parsing m | .indexError m | .attributeError m => m
  | .assertionError => ""

end PyException

section ExceptLemmas

variable {ε α β : Type}

@[simp] theorem pure_eq_ok (a : α) : (pure a : Except ε α) = .ok a := rfl

@[simp] theorem ok_bind (a : α) (f : α → Except ε β) : (Except.ok a >>= f) = f a := rfl

@[simp] theorem error_bind (e : ε) (f : α → Except ε β) :
    (Except.error e >>= f) = Except.error e := rfl

/-- A computation in `Except` succeeds exactly when each step does. -/
theorem bind_eq_ok {x : Except ε α} {f : α → Except ε β} {b : β} :
    (x >>= f) = .ok b ↔ ∃ a, x = .ok a ∧ f a = .ok b := by
  cases x <;> simp

/-- A failed computation failed at some step. -/
theorem bind_eq_error {x : Except ε α} {f : α → Except ε β} {e : ε} :
    (x >>= f) = .error e ↔ x = .error e ∨ ∃ a, x = .ok a ∧ f a = .error e := by
  cases x <;> simp

end ExceptLemmas

/-- A timestamp, as `parse_datetime` returns it. -/
structure Datetime where
  seconds : Int
deriving DecidableEq, Repr

/-- What a `Literal` holds. MQL numbers are `float(node.text)` of a decimal
token; they are kept exact, since the compiler only negates them and copies
them into literals. `null` is Python's `None`. -/
inductive Value where
  | str (s : String)
  | num (x : ℚ)
  | datetime (t : Datetime)
  | null
deriving DecidableEq, Repr

/-- An expression node. The internal function of a curried call is a
`FunctionCall` by its annotation; Python does not enforce it, and neither does
the model. -/
inductive Expression where
  | column (aliasName : Option String) (tableName : Option String) (columnName : String)
  | literal (aliasName : Option String) (value : Value)
  | functionCall (aliasName : Option String) (functionName : String)
      (parameters : List Expression)
  | curriedFunctionCall (aliasName : Option String) (internalFunction : Expression)
      (parameters : List Expression)
deriving Repr

namespace Expression

mutual
/-- Structural equality of expressions, the equality of the dataclasses. -/
def decEq : (a b : Expression) → Decidable (a = b)
  | .column a t c, .column a' t' c' =>
      if h : a = a' ∧ t = t' ∧ c = c' then isTrue (by rw [h.1, h.2.1, h.2.2])
      else isFalse (fun e => by cases e; exact h ⟨rfl, rfl, rfl⟩)
  | .literal a v, .literal a' v' =>
      if h : a = a' ∧ v = v' then isTrue (by rw [h.1, h.2])
      else isFalse (fun e => by cases e; exact h ⟨rfl, rfl⟩)
  | .functionCall a f ps, .functionCall a' f' ps' =>
      if h : a = a' ∧ f = f' then
        match decEqList ps ps' with
        | isTrue hp => isTrue (by rw [h.1, h.2, hp])
        | isFalse hp => isFalse (fun e => by cases e; exact hp rfl)
      else isFalse (fun e => by cases e; exact h ⟨rfl, rfl⟩)
  | .curriedFunctionCall a i ps, .curriedFunctionCall a' i' ps' =>
      if h : a = a' then
        match decEq i i', decEqList ps ps' with
        | isTrue hi, isTrue hp => isTrue (by rw [h, hi, hp])
        | isFalse hi, _ => isFalse (fun e => by cases e; exact hi rfl)
        | _, isFalse hp => isFalse (fun e => by cases e; exact hp rfl)
      else isFalse (fun e => by cases e; exact h rfl)
  | .column .., .literal .. | .column .., .functionCall .. | .column .., .curriedFunctionCall ..
  | .literal .., .column .. | .literal .., .functionCall .. | .literal .., .curriedFunctionCall ..
  | .functionCall .., .column .. | .functionCall .., .literal ..
  | .functionCall .., .curriedFunctionCall ..
  | .curriedFunctionCall .., .column .. | .curriedFunctionCall .., .literal ..
  | .curriedFunctionCall .., .functionCall .. => isFalse (fun e => by cases e)
/-- Equality of parameter tuples. -/
def decEqList : (as bs : List Expression) → Decidable (as = bs)
  | [], [] => isTrue rfl
  | [], _ :: _ | _ :: _, [] => isFalse (fun e => by cases e)
  | a :: as, b :: bs =>
      match decEq a b, decEqList as bs with
      | isTrue h, isTrue h' => isTrue (by rw [h, h'])
      | isFalse h, _ => isFalse (fun e => by cases e; exact h rfl)
      | _, isFalse h' => isFalse (fun e => by cases e; exact h' rfl)
end

instance : DecidableEq Expression := decEq

end Expression

/-- `SelectedExpression(name, expression)`: one column of a select list. -/
structure SelectedExpression where
  name : Option String
  expression : Expression
deriving DecidableEq, Repr

inductive OrderByDirection where
  | asc
  | desc
deriving DecidableEq, Repr

/-- `OrderBy(direction, expression)`. -/
structure OrderBy where
  direction : OrderByDirection
  expression : Expression
deriving DecidableEq, Repr

/-- `AGGREGATE_ALIAS` of `snuba_sdk.metrics_visitors`. -/
def aggregateAlias : String := "aggregate_value"

/-- `binary_condition(function_name, lhs, rhs)`. The function names the
compiler uses are those of `ConditionFunctions` (`equals`, `notEquals`, `in`,
`notIn`, `greaterOrEquals`, `less`) and `BooleanFunctions` (`and`, `or`). -/
def binaryCondition (functionName : String) (lhs rhs : Expression) : Expression :=
  .functionCall none functionName [lhs, rhs]

/-- `_combine_conditions(conditions, "and")` of `snuba.query.conditions`: a
right-nested conjunction, asserting that the list is not empty. -/
def combineAndConditions : List Expression → Except PyException Expression
  | [] => .error .assertionError
  | [c] => .ok c
  | c :: cs => (combineAndConditions cs).map (binaryCondition "and" c)

@[simp] theorem combineAndConditions_singleton (c : Expression) :
    combineAndConditions [c] = .ok c := rfl

@[simp] theorem combineAndConditions_cons_cons (c d : Expression) (cs : List Expression) :
    combineAndConditions (c :: d :: cs) =
      (combineAndConditions (d :: cs)).map (binaryCondition "and" c) := rfl

/-! ## Reading a condition over a row -/

/-- A row of the (joined) relation: the value of each column, under each table
qualifier. -/
abbrev Row := Option String → String → Value

namespace Value

/-- `x < y` between values of one type: numbers and datetimes by value,
strings by characters. Values of different types are not ordered. -/
def lt : Value → Value → Bool
  | .num x, .num y => decide (x < y)
  | .datetime t, .datetime u => decide (t.seconds < u.seconds)
  | .str s, .str t => decide (s < t)
  | _, _ => false

/-- `x ≤ y` between values of one type, as `lt`. -/
def le : Value → Value → Bool
  | .num x, .num y => decide (x ≤ y)
  | .datetime t, .datetime u => decide (t.seconds ≤ u.seconds)
  | .str s, .str t => decide (s ≤ t)
  | _, _ => false

end Value

namespace Expression

/-- The value of an operand of a comparison: a column's cell or a literal. -/
def valueIn (row : Row) : Expression → Option Value
  | .column _ t c => some (row t c)
  | .literal _ v => some v
  | _ => none

mutual
/-- Whether a condition holds in a row, for the functions the visitor and
population emit: `and` and `or` of any arity, the comparisons, and `in` and
`notIn` over a `tuple` of literals. Any other call reads as false. -/
def holds (row : Row) : Expression → Bool
  | .functionCall _ "and" ps => holdsAll row ps
  | .functionCall _ "or" ps => holdsAny row ps
  | .functionCall _ "greaterOrEquals" [a, b] =>
      match a.valueIn row, b.valueIn row with
      | some x, some y => y.le x
      | _, _ => false
  | .functionCall _ "less" [a, b] =>
      match a.valueIn row, b.valueIn row with
      | some x, some y => x.lt y
      | _, _ => false
  | .functionCall _ "equals" [a, b] =>
      match a.valueIn row, b.valueIn row with
      | some x, some y => x == y
      | _, _ => false
  | .functionCall _ "notEquals" [a, b] =>
      match a.valueIn row, b.valueIn row with
      | some x, some y => x != y
      | _, _ => false
  | .functionCall _ "in" [a, .functionCall _ "tuple" vs] =>
      match a.valueIn row with
      | some x => (vs.map (valueIn row)).contains (some x)
      | none => false
  | .functionCall _ "notIn" [a, .functionCall _ "tuple" vs] =>
      match a.valueIn row with
      | some x => !(vs.map (valueIn row)).contains (some x)
      | none => false
  | _ => false
/-- Every condition of the list holds. -/
def holdsAll (row : Row) : List Expression → Bool
  | [] => true
  | e :: es => holds row e && holdsAll row es
/-- Some condition of the list holds. -/
def holdsAny (row : Row) : List Expression → Bool
  | [] => false
  | e :: es => holds row e || holdsAny row es
end

@[simp] theorem holdsAll_nil (row : Row) : holdsAll row [] = true := rfl

@[simp] theorem holdsAll_cons (row : Row) (e : Expression) (es : List Expression) :
    holdsAll row (e :: es) = (holds row e && holdsAll row es) := rfl

@[simp] theorem holdsAny_nil (row : Row) : holdsAny row [] = false := rfl

@[simp] theorem holdsAny_cons (row : Row) (e : Expression) (es : List Expression) :
    holdsAny row (e :: es) = (holds row e || holdsAny row es) := rfl

theorem holdsAll_append (row : Row) (es fs : List Expression) :
    holdsAll row (es ++ fs) = (holdsAll row es && holdsAll row fs) := by
  induction es with
  | nil => rfl
  | cons e es ih => simp [ih, Bool.and_assoc]

theorem holdsAll_eq_all (row : Row) (es : List Expression) :
    holdsAll row es = es.all (holds row) := by
  induction es with
  | nil => rfl
  | cons e es ih => simp [ih]

theorem holdsAny_eq_any (row : Row) (es : List Expression) :
    holdsAny row es = es.any (holds row) := by
  induction es with
  | nil => rfl
  | cons e es ih => simp [ih]

/-! The shapes of condition the compiler emits, each read by `rfl`: unfolding
`holds` would make Lean build its equation lemmas, which split on every
function name. -/

@[simp] theorem valueIn_column (row : Row) (a t : Option String) (c : String) :
    valueIn row (.column a t c) = some (row t c) := rfl

@[simp] theorem valueIn_literal (row : Row) (a : Option String) (v : Value) :
    valueIn row (.literal a v) = some v := rfl

@[simp] theorem holds_and (row : Row) (a : Option String) (ps : List Expression) :
    holds row (.functionCall a "and" ps) = holdsAll row ps := rfl

@[simp] theorem holds_or (row : Row) (a : Option String) (ps : List Expression) :
    holds row (.functionCall a "or" ps) = holdsAny row ps := rfl

@[simp] theorem holds_equals (row : Row) (a b c t : Option String) (col : String) (v : Value) :
    holds row (.functionCall a "equals" [.column b t col, .literal c v]) = (row t col == v) := rfl

@[simp] theorem holds_notEquals (row : Row) (a b c t : Option String) (col : String) (v : Value) :
    holds row (.functionCall a "notEquals" [.column b t col, .literal c v]) =
      (row t col != v) := rfl

@[simp] theorem holds_greaterOrEquals (row : Row) (a b c t : Option String) (col : String)
    (v : Value) :
    holds row (.functionCall a "greaterOrEquals" [.column b t col, .literal c v]) =
      v.le (row t col) := rfl

@[simp] theorem holds_less (row : Row) (a b c t : Option String) (col : String) (v : Value) :
    holds row (.functionCall a "less" [.column b t col, .literal c v]) = (row t col).lt v := rfl

@[simp] theorem holds_in (row : Row) (a b c t : Option String) (col : String)
    (vs : List Expression) :
    holds row (.functionCall a "in" [.column b t col, .functionCall c "tuple" vs]) =
      (vs.map (valueIn row)).contains (some (row t col)) := rfl

@[simp] theorem holds_notIn (row : Row) (a b c t : Option String) (col : String)
    (vs : List Expression) :
    holds row (.functionCall a "notIn" [.column b t col, .functionCall c "tuple" vs]) =
      !(vs.map (valueIn row)).contains (some (row t col)) := rfl

end Expression

/-- The conjuncts of a condition: the operands of its nested binary `and`
calls, left to right. -/
def Expression.conjuncts : Expression → List Expression
  | .functionCall _ "and" [l, r] => l.conjuncts ++ r.conjuncts
  | e => [e]

@[simp] theorem conjuncts_binaryCondition_and (l r : Expression) :
    (binaryCondition "and" l r).conjuncts = l.conjuncts ++ r.conjuncts := by
  simp [binaryCondition, Expression.conjuncts]

/-- A condition holds exactly when each of its conjuncts does. -/
theorem holds_eq_all_conjuncts (row : Row) (e : Expression) :
    e.holds row = e.conjuncts.all (Expression.holds row) := by
  induction e using Expression.conjuncts.induct with
  | case1 a l r ihl ihr => simp [Expression.conjuncts, ihl, ihr]
  | case2 e he =>
      unfold Expression.conjuncts
      split
      · exact absurd rfl (he _ _ _)
      · simp

/-- A right-nested conjunction holds exactly when every conjunct does. -/
theorem combineAndConditions_holds (row : Row) :
    ∀ (cs : List Expression) (c : Expression), combineAndConditions cs = .ok c →
      c.holds row = Expression.holdsAll row cs
  | [], _, h => by cases h
  | [d], c, h => by cases h; simp
  | d :: e :: cs, c, h => by
      simp only [combineAndConditions_cons_cons, Except.map] at h
      split at h
      · cases h
      · next c' hc' =>
        cases h
        simp [binaryCondition, combineAndConditions_holds row (e :: cs) c' hc']

/-- `combine_and_conditions` succeeds on every non-empty list. -/
theorem combineAndConditions_ok (c : Expression) (cs : List Expression) :
    ∃ e, combineAndConditions (c :: cs) = .ok e := by
  induction cs generalizing c with
  | nil => exact ⟨c, rfl⟩
  | cons d cs ih =>
      obtain ⟨e, he⟩ := ih d
      exact ⟨binaryCondition "and" c e, by simp [he, Except.map]⟩

end SnubaMql
