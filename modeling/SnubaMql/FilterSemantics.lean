import SnubaMql.Visitor

/-! # Filters mean what they say, up to the decoding of quoted values

A filter expression is read with `AND` (or `,`) binding tighter than `OR`; a
`!` negates only its own comparison, and a list comparison tests membership in
exactly the listed values, each the string its token spells. For every filter
whose tokens `visit_quoted_string` decodes to what they spell,
`visitFilterExpr_spec` shows that the condition the visitor builds holds in
exactly the rows where the filter is true; the proof is one induction over the
filter syntax.

The decoder undoes only an escaped double quote, so a filter with an escaped
backslash compiles to a condition that disagrees with it
(`visitFilterExpr_quotedBackslash`).
-/

namespace SnubaMql

/-! ## The string a token spells -/

/-- The characters between the quotes of a `quoted_string` token, unescaped:
a backslash stands for the character after it. -/
def unescapeChars : List Char → List Char
  | '\\' :: c :: rest => c :: unescapeChars rest
  | c :: rest => c :: unescapeChars rest
  | [] => []

/-- The string a token spells: a quoted one without its quotes and with its
escapes undone, an unquoted one as it is. -/
def StringToken.value : StringToken → String
  | .quoted text => ⟨unescapeChars (text.toList.drop 1).dropLast⟩
  | .unquoted text => text

/-- A character as the `quoted_string` token spells it: a backslash or a
double quote after a backslash, any other character as itself. -/
def escapeChar (c : Char) : List Char :=
  if c = '\\' ∨ c = '\x22' then ['\\', c] else [c]

/-- The quoted literal of `s`: `s` between double quotes, each character
spelled by `escapeChar`. -/
def quotedLiteral (s : String) : String :=
  ⟨'\x22' :: s.toList.flatMap escapeChar ++ ['\x22']⟩

theorem unescapeChars_cons {c : Char} (h : c ≠ '\\') (cs : List Char) :
    unescapeChars (c :: cs) = c :: unescapeChars cs := by
  cases cs <;> simp [unescapeChars, h]

theorem unescapeChars_flatMap_escapeChar : ∀ cs : List Char,
    unescapeChars (cs.flatMap escapeChar) = cs
  | [] => rfl
  | c :: cs => by
      by_cases h : c = '\\' ∨ c = '\x22'
      · simp [escapeChar, h, unescapeChars, unescapeChars_flatMap_escapeChar cs]
      · have hc : c ≠ '\\' := fun hc => h (.inl hc)
        simp [escapeChar, h, unescapeChars_cons hc, unescapeChars_flatMap_escapeChar cs]

/-- The quoted literal of `s` spells `s`. -/
theorem value_quotedLiteral (s : String) : (StringToken.quoted (quotedLiteral s)).value = s := by
  simp [StringToken.value, quotedLiteral, unescapeChars_flatMap_escapeChar]

/-! ## The truth value of a filter -/

/-- The truth value of one comparison `[!]tag:value` in a row. -/
def comparisonHolds (row : Row) (negated : Bool) (tagKey : String) : TagValue → Bool
  | .string s =>
      if negated then row none tagKey != .str s.value else row none tagKey == .str s.value
  | .tuple first rest =>
      let listed := ((first :: rest).map StringToken.value).map Value.str
      if negated then !listed.contains (row none tagKey) else listed.contains (row none tagKey)
  | .variable _ => false

mutual
/-- The truth value of a filter expression: some term holds. -/
def FilterExpr.denote (row : Row) : FilterExpr → Bool
  | .filterExpr first rest => first.denote row || FilterTerm.denoteAny row rest
/-- Some term of the list holds. -/
def FilterTerm.denoteAny (row : Row) : List FilterTerm → Bool
  | [] => false
  | t :: ts => t.denote row || FilterTerm.denoteAny row ts
/-- The truth value of a term: every factor holds. -/
def FilterTerm.denote (row : Row) : FilterTerm → Bool
  | .filterTerm first rest => first.denote row && FilterFactor.denoteAll row rest
/-- Every factor of the list holds. -/
def FilterFactor.denoteAll (row : Row) : List FilterFactor → Bool
  | [] => true
  | f :: fs => f.denote row && FilterFactor.denoteAll row fs
/-- The truth value of a factor. -/
def FilterFactor.denote (row : Row) : FilterFactor → Bool
  | .comparison negated tagKey value => comparisonHolds row negated tagKey value
  | .nested e => e.denote row
end

/-! ## Filters the visitor reads as written -/

/-- A string or a list whose tokens `visit_quoted_string` decodes to what they
spell; a variable makes the visitor raise. -/
def TagValue.decodes : TagValue → Bool
  | .string s => s.visit == s.value
  | .tuple first rest => (first :: rest).all fun t => t.visit == t.value
  | .variable _ => false

mutual
/-- Every tag value of the filter expression decodes. -/
def FilterExpr.decodes : FilterExpr → Bool
  | .filterExpr first rest => first.decodes && FilterTerm.allDecode rest
/-- Every tag value of every term of the list decodes. -/
def FilterTerm.allDecode : List FilterTerm → Bool
  | [] => true
  | t :: ts => t.decodes && FilterTerm.allDecode ts
/-- Every tag value of the term decodes. -/
def FilterTerm.decodes : FilterTerm → Bool
  | .filterTerm first rest => first.decodes && FilterFactor.allDecode rest
/-- Every tag value of every factor of the list decodes. -/
def FilterFactor.allDecode : List FilterFactor → Bool
  | [] => true
  | f :: fs => f.decodes && FilterFactor.allDecode fs
/-- The tag value of the factor, or every one inside it, decodes. -/
def FilterFactor.decodes : FilterFactor → Bool
  | .comparison _ _ value => value.decodes
  | .nested e => e.decodes
end

/-- `_filter(children, "or")` holds exactly when one of its operands does. -/
theorem filter_or_holds (row : Row) (first : Expression) (others : List Expression) :
    (MQLVisitor.filter "or" first others).holds row =
      (first.holds row || Expression.holdsAny row others) := by
  cases others <;> simp [MQLVisitor.filter]

/-- `_filter(children, "and")` holds exactly when all its operands do. -/
theorem filter_and_holds (row : Row) (first : Expression) (others : List Expression) :
    (MQLVisitor.filter "and" first others).holds row =
      (first.holds row && Expression.holdsAll row others) := by
  cases others <;> simp [MQLVisitor.filter]

/-- The comparison `visit_filter_factor` builds from a value that decodes
holds exactly when the comparison does. -/
theorem visitComparison_holds (row : Row) (negated : Bool) (tagKey : String)
    {value : TagValue} {rhs : String ⊕ List String} (h : visitTagValue value = .ok rhs)
    (hd : value.decodes = true) :
    (visitComparison negated tagKey rhs).holds row = comparisonHolds row negated tagKey value := by
  rcases value with s | ⟨first, rest⟩ | _
  · cases h
    have hs : s.visit = s.value := by simpa [TagValue.decodes] using hd
    cases negated <;> simp [visitComparison, comparisonHolds, hs]
  · cases h
    have hs : ∀ t ∈ first :: rest, t.visit = t.value := by simpa [TagValue.decodes] using hd
    have hmap := List.map_congr_left hs
    simp only [List.map_cons] at hmap
    cases negated <;> simp [visitComparison, comparisonHolds, List.map_map, Function.comp_def, hmap]
  · cases h

mutual
/-- For every filter expression whose tag values decode, the visitor builds a
condition that holds in exactly the rows where the expression is true. -/
theorem visitFilterExpr_spec : ∀ e : FilterExpr, e.decodes →
    ∃ c, visitFilterExpr e = .ok c ∧ ∀ row, c.holds row = e.denote row
  | .filterExpr first rest, h => by
      simp only [FilterExpr.decodes, Bool.and_eq_true] at h
      obtain ⟨c, hc, hrow⟩ := visitFilterTerm_spec first h.1
      obtain ⟨cs, hcs, hrows⟩ := visitFilterTerms_spec rest h.2
      exact ⟨MQLVisitor.filter "or" c cs, by simp [visitFilterExpr, hc, hcs], fun row => by
        simp [filter_or_holds, FilterExpr.denote, hrow, hrows]⟩
theorem visitFilterTerms_spec : ∀ ts : List FilterTerm, FilterTerm.allDecode ts →
    ∃ cs, visitFilterTerms ts = .ok cs ∧
      ∀ row, Expression.holdsAny row cs = FilterTerm.denoteAny row ts
  | [], _ => ⟨[], rfl, fun _ => rfl⟩
  | t :: ts, h => by
      simp only [FilterTerm.allDecode, Bool.and_eq_true] at h
      obtain ⟨c, hc, hrow⟩ := visitFilterTerm_spec t h.1
      obtain ⟨cs, hcs, hrows⟩ := visitFilterTerms_spec ts h.2
      exact ⟨c :: cs, by simp [visitFilterTerms, hc, hcs], fun row => by
        simp [FilterTerm.denoteAny, hrow, hrows]⟩
theorem visitFilterTerm_spec : ∀ t : FilterTerm, t.decodes →
    ∃ c, visitFilterTerm t = .ok c ∧ ∀ row, c.holds row = t.denote row
  | .filterTerm first rest, h => by
      simp only [FilterTerm.decodes, Bool.and_eq_true] at h
      obtain ⟨c, hc, hrow⟩ := visitFilterFactor_spec first h.1
      obtain ⟨cs, hcs, hrows⟩ := visitFilterFactors_spec rest h.2
      exact ⟨MQLVisitor.filter "and" c cs, by simp [visitFilterTerm, hc, hcs], fun row => by
        simp [filter_and_holds, FilterTerm.denote, hrow, hrows]⟩
theorem visitFilterFactors_spec : ∀ fs : List FilterFactor, FilterFactor.allDecode fs →
    ∃ cs, visitFilterFactors fs = .ok cs ∧
      ∀ row, Expression.holdsAll row cs = FilterFactor.denoteAll row fs
  | [], _ => ⟨[], rfl, fun _ => rfl⟩
  | f :: fs, h => by
      simp only [FilterFactor.allDecode, Bool.and_eq_true] at h
      obtain ⟨c, hc, hrow⟩ := visitFilterFactor_spec f h.1
      obtain ⟨cs, hcs, hrows⟩ := visitFilterFactors_spec fs h.2
      exact ⟨c :: cs, by simp [visitFilterFactors, hc, hcs], fun row => by
        simp [FilterFactor.denoteAll, hrow, hrows]⟩
theorem visitFilterFactor_spec : ∀ f : FilterFactor, f.decodes →
    ∃ c, visitFilterFactor f = .ok c ∧ ∀ row, c.holds row = f.denote row
  | .comparison negated tagKey value, h => by
      cases hv : visitTagValue value with
      | error e => cases value <;> simp_all [visitTagValue, FilterFactor.decodes,
          TagValue.decodes]
      | ok rhs =>
          exact ⟨visitComparison negated tagKey rhs, by simp [visitFilterFactor, hv], fun row => by
            simp [FilterFactor.denote, visitComparison_holds row negated tagKey hv h]⟩
  | .nested e, h => by
      obtain ⟨c, hc, hrow⟩ := visitFilterExpr_spec e h
      exact ⟨c, by simp [visitFilterFactor, hc], fun row => by simp [FilterFactor.denote, hrow]⟩
end

/-! ## Quoted tag values -/

/-- `String.replace` scans the text `\\` for an escaped quote: the first
backslash is not followed by a quote. -/
theorem substrEq_backslashes_quote :
    "\\\\".substrEq 0 "\\\"" 0 "\\\"".endPos.byteIdx = false := by
  unfold String.substrEq
  rw [String.substrEq.loop, dif_pos (by decide)]
  simp only
  rw [String.substrEq.loop, dif_pos (by decide)]
  decide

/-- The token `"\\"` decodes to two backslashes. -/
theorem visitQuotedString_backslashes : visitQuotedString "\"\\\\\"" = "\\\\" := by
  have hin : ("\"\\\\\"".drop 1).dropRight 1 = "\\\\" := by decide
  simp only [visitQuotedString, hin, String.replace]
  rw [dif_neg (by decide), String.replace.loop, dif_neg (by decide)]
  simp only
  rw [if_neg (by rw [substrEq_backslashes_quote]; decide), String.replace.loop,
    dif_pos (by decide)]
  decide

theorem visitFilterFactor_quotedBackslash :
    quotedLiteral "\\" = "\"\\\\\"" ∧
      visitFilterFactor (.comparison false "tag" (.string (.quoted (quotedLiteral "\\")))) =
        .ok (.functionCall none "equals" [.column none none "tag", .literal none (.str "\\\\")]) ∧
      "\\\\" ≠ "\\" := by
  have hlit : quotedLiteral "\\" = "\"\\\\\"" := by decide
  refine ⟨hlit, ?_, by decide⟩
  simp only [visitFilterFactor, visitTagValue, StringToken.visit, hlit,
    visitQuotedString_backslashes]
  rfl

/-- The filter `tag:"\\"`, whose quoted token spells one backslash. -/
def quotedBackslashFilter : FilterExpr :=
  .filterExpr (.filterTerm (.comparison false "tag" (.string (.quoted (quotedLiteral "\\")))) [])
    []

/-- A row whose `tag` is one backslash. -/
def backslashRow : Row := fun _ column => if column = "tag" then .str "\\" else .null

/-- The filter `tag:"\\"` holds in the row whose tag is one backslash, but the
condition the visitor builds for it compares with two backslashes and fails
there. -/
theorem visitFilterExpr_quotedBackslash :
    ∃ c, visitFilterExpr quotedBackslashFilter = .ok c ∧
      quotedBackslashFilter.denote backslashRow = true ∧ c.holds backslashRow = false := by
  have hlit : quotedLiteral "\\" = "\"\\\\\"" := by decide
  refine ⟨.functionCall none "equals" [.column none none "tag", .literal none (.str "\\\\")],
    ?_, ?_, by decide⟩
  · simp only [quotedBackslashFilter, visitFilterExpr, visitFilterTerm, visitFilterTerms,
      visitFilterFactors, visitFilterFactor, visitTagValue, StringToken.visit, hlit,
      visitQuotedString_backslashes]
    rfl
  · simp [quotedBackslashFilter, FilterExpr.denote, FilterTerm.denote, FilterFactor.denote,
      FilterFactor.denoteAll, FilterTerm.denoteAny, comparisonHolds, value_quotedLiteral,
      backslashRow]

end SnubaMql
