import SnubaMql.Formula

/-! # The join chain of a formula

`build_formula_query_from_clause` links each leaf to the one before it, not to
the first: the join keys form a chain over consecutive leaves. `chainJoin` is
that chain as the spec describes it, and `buildFormulaQueryFromClause_eq`
shows the builder computes exactly it, or raises when the group bys differ.
-/

namespace SnubaMql

/-- The column name of a selected column. -/
def SelectedExpression.columnName (g : SelectedExpression) : Option String :=
  match g.expression with
  | .column _ _ c => some c
  | _ => none

/-- The column names of a group by, when every entry is a column. -/
def groupbyColumns (groupby : Option (List SelectedExpression)) : Option (List String) :=
  (groupby.getD []).mapM SelectedExpression.columnName

/-- The keys `K(x, p)`: `x.g = p.g` for every group by column `g`. -/
def chainKeys (G : List String) (x p : IndividualNode) : List JoinCondition :=
  G.map fun g => ⟨⟨x.tableAlias, g⟩, ⟨p.tableAlias, g⟩⟩

/-- The chain `J(p; x :: rest)` of the spec: `x` joins `p` on the left, and
the chain of the later nodes hangs from `x`. -/
def chainJoin (G : List String) : IndividualNode → IndividualNode → List IndividualNode → JoinClause
  | p, x, [] => ⟨.inl x, p, chainKeys G x p, .inner⟩
  | p, x, y :: rest => ⟨.inr (chainJoin G x y rest), p, chainKeys G x p, .inner⟩

/-- `N` is the individual node of the leaf `L`: the leaf's MRI selects `N`'s
entity, its table alias is `N`'s non-empty alias, and its group by consists of
columns. -/
def LeafNode (dataset : Dataset) (L : InitialParseResult) (N : IndividualNode) : Prop :=
  (∃ mri, L.mri = some mri ∧ selectEntity mri dataset = .ok N.dataSource.key) ∧
    L.tableAlias = some N.tableAlias ∧ N.tableAlias ≠ "" ∧ (groupbyColumns L.groupby).isSome

/-- The aliases of a join tree's individual nodes. -/
def JoinClause.aliases (j : JoinClause) : List String :=
  j.individualNodes.map (·.tableAlias)

/-- Every key of every join relates an alias of the join's left subtree to the
alias of its right node. -/
def JoinClause.KeysScoped : JoinClause → Prop
  | ⟨.inl n, r, ks, _⟩ =>
      ∀ k ∈ ks, k.left.tableAlias = n.tableAlias ∧ k.right.tableAlias = r.tableAlias
  | ⟨.inr c, r, ks, _⟩ =>
      (∀ k ∈ ks, k.left.tableAlias ∈ c.aliases ∧ k.right.tableAlias = r.tableAlias) ∧
        c.KeysScoped

theorem selectEntity_ne_empty {mri : String} {dataset : Dataset} {k : EntityKey}
    (h : selectEntity mri dataset = .ok k) : mri ≠ "" := by
  rintro rfl
  cases h

theorem buildNode_eq {dataset : Dataset} {L : InitialParseResult} {N : IndividualNode}
    (h : LeafNode dataset L N) : buildNode dataset L = .ok N := by
  obtain ⟨⟨mri, hmri, hsel⟩, halias, hne, -⟩ := h
  simp [buildNode, hmri, halias, truthy_some hne, truthy_some (selectEntity_ne_empty hsel), hsel,
    Functor.map, Except.map]

theorem joinKeys_eq (x p : String) :
    ∀ (gs : List SelectedExpression) (G : List String),
      gs.mapM SelectedExpression.columnName = some G →
      joinKeys x p gs = .ok (G.map fun g => ⟨⟨x, g⟩, ⟨p, g⟩⟩)
  | [], G, h => by cases h; rfl
  | g :: gs, G, h => by
      obtain ⟨c, hc, G', hG', rfl⟩ : ∃ c, g.columnName = some c ∧
          ∃ G', gs.mapM SelectedExpression.columnName = some G' ∧ c :: G' = G := by
        simpa [List.mapM_cons, Option.bind_eq_some, -List.mapM] using h
      have hrest := joinKeys_eq x p gs G' hG'
      unfold joinKeys at hrest ⊢
      unfold SelectedExpression.columnName at hc
      split at hc
      · next hg =>
          cases hc
          rw [List.mapM_cons, hrest]
          simp only [hg, ok_bind, List.map_cons]
          rfl
      · cases hc

/-- `build_join_clause` builds the spec's chain over the leaves' nodes. -/
theorem buildJoinClause_eq (dataset : Dataset) (G : List String) :
    ∀ (prev : IndividualNode) (L : InitialParseResult) (Ls : List InitialParseResult)
      (N : IndividualNode) (Ns : List IndividualNode),
      List.Forall₂ (LeafNode dataset) (L :: Ls) (N :: Ns) →
      (∀ L' ∈ L :: Ls, groupbyColumns L'.groupby = some G) →
      buildJoinClause dataset prev (L :: Ls) = .ok (chainJoin G prev N Ns)
  | prev, L, Ls, N, Ns, hnodes, hG => by
      obtain ⟨hL, hrest⟩ := List.forall₂_cons.mp hnodes
      have hkeys := joinKeys_eq N.tableAlias prev.tableAlias _ G (hG L (List.mem_cons_self _ _))
      have halias : truthy L.tableAlias = some N.tableAlias := by
        rw [hL.2.1, truthy_some hL.2.2.1]
      cases hrest with
      | nil => simp [buildJoinClause, halias, buildNode_eq hL, hkeys, chainJoin, chainKeys]
      | @cons L' N' Ls Ns' hN' hrest' =>
          have ih := buildJoinClause_eq dataset G N L' Ls N' Ns'
            (List.Forall₂.cons hN' hrest') (fun L'' h => hG L'' (List.mem_cons_of_mem _ h))
          rw [buildJoinClause]
          simp [halias, buildNode_eq hL, hkeys, ih, chainJoin, chainKeys]

/-- The from clause a formula's leaves give: the entity of the only leaf, or
the chain over all of them. -/
def formulaFromClause (G : List String) (N : IndividualNode) : List IndividualNode → FromClause
  | [] => .entity N.dataSource
  | N' :: Ns => .join (chainJoin G N N' Ns)

theorem selectEntities_eq (dataset : Dataset) :
    ∀ {Ls : List InitialParseResult} {Ns : List IndividualNode},
      List.Forall₂ (LeafNode dataset) Ls Ns →
      Ls.mapM (fun node => selectEntity (node.mri.getD "") dataset) =
        .ok (Ns.map (·.dataSource.key))
  | [], [], .nil => rfl
  | L :: Ls, N :: Ns, .cons hL hrest => by
      obtain ⟨mri, hmri, hsel⟩ := hL.1
      simp [List.mapM_cons, hmri, hsel, selectEntities_eq dataset hrest, -List.mapM]

theorem all_groupby_eq_iff (first : InitialParseResult) (Ls : List InitialParseResult) :
    Ls.all (fun node => node.groupby == first.groupby) = true ↔
      ∀ L ∈ Ls, L.groupby = first.groupby := by
  simp [List.all_eq_true]

/-- `build_formula_query_from_clause` raises exactly when two leaves have
different group bys, and otherwise builds the from clause of the leaves'
nodes. -/
theorem buildFormulaQueryFromClause_eq (parsed : InitialParseResult) (dataset : Dataset)
    (first : InitialParseResult) (rest : List InitialParseResult) (N : IndividualNode)
    (Ns : List IndividualNode) (G : List String)
    (hleaves : findAllLeafNodes (.inl parsed) = some (first :: rest))
    (hnodes : List.Forall₂ (LeafNode dataset) (first :: rest) (N :: Ns))
    (hG : groupbyColumns first.groupby = some G) :
    buildFormulaQueryFromClause parsed dataset =
      if ∀ L ∈ first :: rest, L.groupby = first.groupby then
        .ok ({ fromClause := formulaFromClause G N Ns }, first :: rest)
      else .error (.invalidQuery "All terms in a formula must have the same groupby") := by
  unfold buildFormulaQueryFromClause
  rw [hleaves]
  simp only
  by_cases hall : ∀ L ∈ first :: rest, L.groupby = first.groupby
  · rw [if_pos ((all_groupby_eq_iff first _).mpr hall), if_pos hall,
      selectEntities_eq dataset hnodes]
    obtain ⟨hN, hrest⟩ := List.forall₂_cons.mp hnodes
    cases hrest with
    | nil => rfl
    | @cons L' N' Ls Ns' hN' hrest' =>
        have hcols : ∀ L ∈ L' :: Ls, groupbyColumns L.groupby = some G := fun L hL => by
          rw [hall L (List.mem_cons_of_mem _ hL), hG]
        simp [buildNode_eq hN, buildJoinClause_eq dataset G N L' Ls N' Ns'
          (.cons hN' hrest') hcols, formulaFromClause]
  · rw [if_neg (mt (all_groupby_eq_iff first _).mp hall), if_neg hall]

theorem chainJoin_individualNodes (G : List String) :
    ∀ (p x : IndividualNode) (rest : List IndividualNode),
      (chainJoin G p x rest).individualNodes = (p :: x :: rest).reverse
  | p, x, [] => rfl
  | p, x, y :: rest => by
      simp [chainJoin, JoinClause.individualNodes, chainJoin_individualNodes G x y rest]

/-- Every key of `K(x, p)` relates `x` to `p`. -/
theorem mem_chainKeys {G : List String} {x p : IndividualNode} {k : JoinCondition}
    (hk : k ∈ chainKeys G x p) :
    k.left.tableAlias = x.tableAlias ∧ k.right.tableAlias = p.tableAlias := by
  obtain ⟨g, -, rfl⟩ := List.mem_map.mp hk
  exact ⟨rfl, rfl⟩

theorem chainJoin_keysScoped (G : List String) :
    ∀ (p x : IndividualNode) (rest : List IndividualNode), (chainJoin G p x rest).KeysScoped
  | p, x, [] => fun _ => mem_chainKeys
  | p, x, y :: rest => by
      refine ⟨fun k hk => ⟨?_, (mem_chainKeys hk).2⟩, chainJoin_keysScoped G x y rest⟩
      rw [(mem_chainKeys hk).1, JoinClause.aliases, chainJoin_individualNodes]
      exact List.mem_map_of_mem _ (by simp)

theorem chainJoin_joinTypes (G : List String) :
    ∀ (p x : IndividualNode) (rest : List IndividualNode),
      ∀ t ∈ (chainJoin G p x rest).joinTypes, t = .inner
  | p, x, [] => by simp [chainJoin, JoinClause.joinTypes]
  | p, x, y :: rest => by
      simp only [chainJoin, JoinClause.joinTypes, List.mem_append, List.mem_singleton]
      rintro t (h | rfl)
      exacts [chainJoin_joinTypes G x y rest t h, rfl]

/-- The keys of the chain, innermost join first: each links a leaf to the one
before it. -/
theorem chainJoin_allKeys (G : List String) :
    ∀ (p x : IndividualNode) (rest : List IndividualNode),
      (chainJoin G p x rest).allKeys =
        ((x :: rest).zip (p :: x :: rest)).reverse.flatMap (fun q => chainKeys G q.1 q.2)
  | p, x, [] => by simp [chainJoin, JoinClause.allKeys]
  | p, x, y :: rest => by
      simp [chainJoin, JoinClause.allKeys, chainJoin_allKeys G x y rest]

/-- The join of a formula: for leaves whose MRIs select entities of the dataset,
the builder raises exactly when their group bys differ; otherwise one leaf gives
its entity and several give the chain `J(N1; [N2..Nn])`, whose individual nodes
are the leaves' nodes, whose keys each link a node of the left subtree to the
right node, and which links each leaf to the one before it on every group by
column, with inner joins only. -/
theorem buildFormulaQueryFromClause_chain (parsed : InitialParseResult) (dataset : Dataset)
    (first : InitialParseResult) (rest : List InitialParseResult) (N : IndividualNode)
    (Ns : List IndividualNode) (G : List String)
    (hleaves : findAllLeafNodes (.inl parsed) = some (first :: rest))
    (hnodes : List.Forall₂ (LeafNode dataset) (first :: rest) (N :: Ns))
    (hG : groupbyColumns first.groupby = some G) :
    buildFormulaQueryFromClause parsed dataset =
      (if ∀ L ∈ first :: rest, L.groupby = first.groupby then
        .ok ({ fromClause := formulaFromClause G N Ns }, first :: rest)
      else .error (.invalidQuery "All terms in a formula must have the same groupby")) ∧
    ∀ N' Ns', Ns = N' :: Ns' →
      (chainJoin G N N' Ns').individualNodes = (N :: N' :: Ns').reverse ∧
      (chainJoin G N N' Ns').KeysScoped ∧
      (∀ t ∈ (chainJoin G N N' Ns').joinTypes, t = .inner) ∧
      (chainJoin G N N' Ns').allKeys =
        ((N' :: Ns').zip (N :: N' :: Ns')).reverse.flatMap (fun q => chainKeys G q.1 q.2) :=
  ⟨buildFormulaQueryFromClause_eq parsed dataset first rest N Ns G hleaves hnodes hG,
    fun N' Ns' _ => ⟨chainJoin_individualNodes G N N' Ns', chainJoin_keysScoped G N N' Ns',
      chainJoin_joinTypes G N N' Ns', chainJoin_allKeys G N N' Ns'⟩⟩

/-- A leaf as the visitor leaves `sum(mri) by x`, with alias `tableAlias`. -/
def groupedLeaf (mri tableAlias : String) : InitialParseResult :=
  ⟨some ⟨some aggregateAlias, .functionCall (some aggregateAlias) "sum" [.column none none "value"]⟩,
    none, none, some [⟨some "x", .column (some "x") none "x"⟩], none, some mri, some tableAlias⟩

/-- ``sum(d:transactions/a@none) by x + sum(c:transactions/b@none) by x *
sum(s:transactions/c@none) by x`` over generic metrics: the product is nested
in the sum, yet the three leaves make one chain on `x`, which links `s0` to
`c0` and `c0` to `d0`. -/
theorem buildFormulaQueryFromClause_three_leaves :
    buildFormulaQueryFromClause
        (.formulaNode "plus" [.inl (groupedLeaf "d:transactions/a@none" "d0"),
          .inl (.formulaNode "multiply" [.inl (groupedLeaf "c:transactions/b@none" "c0"),
            .inl (groupedLeaf "s:transactions/c@none" "s0")])])
        ⟨"generic_metrics"⟩ =
      .ok ({ fromClause := .join (chainJoin ["x"] ⟨"d0", ⟨.genericMetricsDistributions⟩⟩
          ⟨"c0", ⟨.genericMetricsCounters⟩⟩ [⟨"s0", ⟨.genericMetricsSets⟩⟩]) },
        [groupedLeaf "d:transactions/a@none" "d0", groupedLeaf "c:transactions/b@none" "c0",
          groupedLeaf "s:transactions/c@none" "s0"]) ∧
    (chainJoin ["x"] ⟨"d0", ⟨.genericMetricsDistributions⟩⟩ ⟨"c0", ⟨.genericMetricsCounters⟩⟩
        [⟨"s0", ⟨.genericMetricsSets⟩⟩]).allKeys =
      [⟨⟨"s0", "x"⟩, ⟨"c0", "x"⟩⟩, ⟨⟨"c0", "x"⟩, ⟨"d0", "x"⟩⟩] := by
  have h := buildFormulaQueryFromClause_chain
    (.formulaNode "plus" [.inl (groupedLeaf "d:transactions/a@none" "d0"),
      .inl (.formulaNode "multiply" [.inl (groupedLeaf "c:transactions/b@none" "c0"),
        .inl (groupedLeaf "s:transactions/c@none" "s0")])])
    ⟨"generic_metrics"⟩ (groupedLeaf "d:transactions/a@none" "d0")
    [groupedLeaf "c:transactions/b@none" "c0", groupedLeaf "s:transactions/c@none" "s0"]
    ⟨"d0", ⟨.genericMetricsDistributions⟩⟩
    [⟨"c0", ⟨.genericMetricsCounters⟩⟩, ⟨"s0", ⟨.genericMetricsSets⟩⟩] ["x"] rfl
    (.cons ⟨⟨"d:transactions/a@none", rfl, rfl⟩, rfl, by decide, rfl⟩
      (.cons ⟨⟨"c:transactions/b@none", rfl, rfl⟩, rfl, by decide, rfl⟩
        (.cons ⟨⟨"s:transactions/c@none", rfl, rfl⟩, rfl, by decide, rfl⟩ .nil))) rfl
  exact ⟨by rw [h.1, if_pos (by decide)]; rfl, by rw [(h.2 _ _ rfl).2.2.2]; rfl⟩

end SnubaMql
