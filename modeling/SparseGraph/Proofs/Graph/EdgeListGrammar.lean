import Mathlib.Data.List.Perm.Basic
import Mathlib.Logic.Relation
import Mathlib.Order.Bounds.Basic
import SparseGraph.Proofs.Graph.CountingSort
import SparseGraph.Proofs.Graph.EdgeListText
import SparseGraph.Proofs.Graph.PairOrder

namespace SparseGraph.Graph

open Text (Denotes isBlank lines maxWord readWord trim words)

/-!
# The grammar of edge lists

What the lines of an edge list say and what is wrong with them, told line by line. All that counts of a
line is whether it gives an edge and which, and of the edges how often each is given. So neither the
order of the lines matters nor anything that gives no edge.

* `GivesEnds`, `GivesEdge` — the words for the ends of an edge on a line, and the edge itself;
* `FirstBadWord` — the first word for an end that is no numeral;
* `Tells` — the graph whose edges are those that lines give;
* `Edit` — one change of lines that leaves the edges alone;
* `mapM_edge_eq_error_iff`, `mapM_edge_eq_ok_iff` — reading the lines finds the first bad word, or the
  edges;
* `ofEdgeListText_grammar` — which texts are accepted, with what result, and why others are not.
-/

/-! ### What a line gives -/

/-- The line gives an edge, and these are its words for the ends of the edge: it is no comment, and they
    are its first two words. -/
structure GivesEnds (l source target : List Char) : Prop where
  not_comment : (trim l).head? ≠ some '#'
  words_eq : ∃ further, words l = source :: target :: further

/-- The line is one that gives an edge. -/
def IsDataLine (l : List Char) : Prop :=
  ∃ source target, GivesEnds l source target

/-- The word is a numeral of a vertex. -/
def IsVertex (word : List Char) : Prop :=
  ∃ v : UInt32, Denotes word v.toNat

/-- The words for the ends of an edge on this line, if there are any, are numerals. -/
def IsGood (l : List Char) : Prop :=
  ∀ source target, GivesEnds l source target → IsVertex source ∧ IsVertex target

/-- The line gives an edge from `u` to `v`. -/
def GivesEdge (l : List Char) (u v : UInt32) : Prop :=
  ∃ source target, GivesEnds l source target ∧ Denotes source u.toNat ∧ Denotes target v.toNat

/-- A line gives an edge with the greatest word for an end. -/
def GivesGreatest (ls : List (List Char)) : Prop :=
  ∃ l ∈ ls, ∃ u v, GivesEdge l u v ∧ (u.toNat = maxWord ∨ v.toNat = maxWord)

/-- The first word for an end that is no numeral, the source of a line before its target, with the number
    of its line, if the lines are numbered from `n` on. -/
inductive FirstBadWord : Nat → List (List Char) → Nat → List Char → Role → Prop
  | source {n : Nat} {l source target : List Char} {rest : List (List Char)}
      (h : GivesEnds l source target) (hs : ¬ IsVertex source) :
      FirstBadWord n (l :: rest) n source .source
  | target {n : Nat} {l source target : List Char} {rest : List (List Char)}
      (h : GivesEnds l source target) (hs : IsVertex source) (ht : ¬ IsVertex target) :
      FirstBadWord n (l :: rest) n target .target
  | later {n line : Nat} {l word : List Char} {role : Role} {rest : List (List Char)}
      (hl : IsGood l) (h : FirstBadWord (n + 1) rest line word role) :
      FirstBadWord n (l :: rest) line word role

variable {n line : Nat} {l word source target : List Char} {ls rest : List (List Char)} {role : Role}
  {e : Edge} {edges : List Edge} {g : Graph} {u v : UInt32} {error : GraphError}

theorem dataLine?_eq_some_iff {d : DataLine} :
    dataLine? l n = some d ↔ d.line = n ∧ GivesEnds l d.source d.target := by
  unfold dataLine?
  constructor
  · intro h
    split at h
    · cases h
    next hcomment =>
      split at h
      next further hwords =>
        cases h
        exact ⟨rfl, hcomment, further, hwords⟩
      next => cases h
  · obtain ⟨line, source, target⟩ := d
    rintro ⟨rfl, hcomment, further, hwords⟩
    dsimp only at hwords
    rw [if_neg hcomment, hwords]

theorem dataLine?_eq_none_iff : dataLine? l n = none ↔ ¬ IsDataLine l := by
  rw [Option.eq_none_iff_forall_ne_some]
  constructor
  · rintro h ⟨source, target, hl⟩
    exact h ⟨n, source, target⟩ (dataLine?_eq_some_iff.2 ⟨rfl, hl⟩)
  · intro h d hd
    exact h ⟨_, _, (dataLine?_eq_some_iff.1 hd).2⟩

/-- A line has one pair of words for ends. -/
theorem GivesEnds.unique {s t : List Char} (h : GivesEnds l source target) (h' : GivesEnds l s t) :
    source = s ∧ target = t := by
  obtain ⟨_, further, hwords⟩ := h
  obtain ⟨_, further', hwords'⟩ := h'
  rw [hwords] at hwords'
  obtain ⟨hs, hrest⟩ := List.cons.inj hwords'
  exact ⟨hs, (List.cons.inj hrest).1⟩

/-! ### Reading a line -/

theorem readVertex_eq_ok_iff : readVertex line word role = .ok v ↔ Denotes word v.toNat := by
  rw [← Text.readWord_eq_ok_iff]
  unfold readVertex
  split
  next heq => rw [heq, Except.ok.injEq, Except.ok.injEq]
  next heq => rw [heq]; exact iff_of_false nofun nofun

theorem readVertex_eq_error_iff :
    readVertex line word role = .error error ↔
      ¬ IsVertex word ∧ error = .badToken line word role := by
  have hvertex : IsVertex word ↔ ∃ v, readWord word = .ok v :=
    exists_congr fun v => Text.readWord_eq_ok_iff.symm
  unfold readVertex
  rw [hvertex]
  split
  next v heq =>
    rw [heq]
    exact iff_of_false nofun fun h => h.1 ⟨v, rfl⟩
  next heq =>
    rw [heq, Except.error.injEq, eq_comm]
    exact (and_iff_right (by rintro ⟨v, hv⟩; cases hv)).symm

/-- What a pair of words for ends says. -/
def Says (ends : List Char × List Char) (e : Edge) : Prop :=
  Denotes ends.1 e.source.toNat ∧ Denotes ends.2 e.target.toNat ∧ e.weight = 1

theorem DataLine.edge_eq_ok_iff {d : DataLine} : d.edge = .ok e ↔ Says (d.source, d.target) e := by
  unfold DataLine.edge Says
  simp only [bind_eq_ok_iff, readVertex_eq_ok_iff]
  constructor
  · rintro ⟨s, hs, t, ht, h⟩
    cases h
    exact ⟨hs, ht, rfl⟩
  · rintro ⟨hs, ht, hw⟩
    refine ⟨e.source, hs, e.target, ht, ?_⟩
    rw [← hw]
    rfl

theorem DataLine.edge_eq_error_iff {d : DataLine} :
    d.edge = .error error ↔
      (¬ IsVertex d.source ∧ error = .badToken d.line d.source .source) ∨
        (IsVertex d.source ∧ ¬ IsVertex d.target ∧ error = .badToken d.line d.target .target) := by
  unfold DataLine.edge
  simp only [bind_eq_error_iff, readVertex_eq_ok_iff, readVertex_eq_error_iff]
  refine or_congr_right ⟨?_, ?_⟩
  · rintro ⟨s, hs, ⟨ht, rfl⟩ | ⟨t, _, h⟩⟩
    · exact ⟨⟨s, hs⟩, ht, rfl⟩
    · cases h
  · rintro ⟨⟨s, hs⟩, ht, rfl⟩
    exact ⟨s, hs, .inl ⟨ht, rfl⟩⟩

/-! ### Reading all lines -/

/-- The data lines among lines that are numbered from `n` on. -/
def dataLinesFrom (n : Nat) (ls : List (List Char)) : List DataLine :=
  (ls.zipIdx n).filterMap fun (l, number) => dataLine? l number

theorem dataLinesFrom_of_none (h : dataLine? l n = none) :
    dataLinesFrom n (l :: rest) = dataLinesFrom (n + 1) rest := by
  unfold dataLinesFrom
  simp only [List.zipIdx_cons, List.filterMap_cons, h]

theorem dataLinesFrom_of_some {d : DataLine} (h : dataLine? l n = some d) :
    dataLinesFrom n (l :: rest) = d :: dataLinesFrom (n + 1) rest := by
  unfold dataLinesFrom
  simp only [List.zipIdx_cons, List.filterMap_cons, h]

/-- **Reading stops at the first bad word.** -/
theorem mapM_edge_eq_error_iff :
    (dataLinesFrom n ls).mapM DataLine.edge = .error error ↔
      ∃ line word role, FirstBadWord n ls line word role ∧ error = .badToken line word role := by
  induction ls generalizing n with
  | nil =>
    refine iff_of_false nofun ?_
    rintro ⟨_, _, _, h, _⟩
    cases h
  | cons l rest ih =>
    cases hd : dataLine? l n with
    | none =>
      -- The line gives no edge, so no word on it can be bad.
      have hnone := dataLine?_eq_none_iff.1 hd
      rw [dataLinesFrom_of_none hd, ih]
      refine exists_congr fun line => exists_congr fun word => exists_congr fun role =>
        and_congr_left fun _ => ⟨.later fun s t hl => absurd ⟨s, t, hl⟩ hnone, fun h => ?_⟩
      cases h with
      | source h _ => exact absurd ⟨_, _, h⟩ hnone
      | target h _ _ => exact absurd ⟨_, _, h⟩ hnone
      | later _ h => exact h
    | some d =>
      obtain ⟨rfl, hends⟩ := dataLine?_eq_some_iff.1 hd
      rw [dataLinesFrom_of_some hd, List.mapM_cons, bind_eq_error_iff, DataLine.edge_eq_error_iff]
      constructor
      · rintro ((⟨hs, rfl⟩ | ⟨hs, ht, rfl⟩) | ⟨e, he, hrest⟩)
        · exact ⟨_, _, _, .source hends hs, rfl⟩
        · exact ⟨_, _, _, .target hends hs ht, rfl⟩
        · -- The line has been read, so its words are good.
          obtain hrest | ⟨es, _, h⟩ := bind_eq_error_iff.1 hrest
          · obtain ⟨line, word, role, hbad, rfl⟩ := ih.1 hrest
            obtain ⟨hs, ht, _⟩ := DataLine.edge_eq_ok_iff.1 he
            refine ⟨line, word, role, .later (fun s t hl => ?_) hbad, rfl⟩
            obtain ⟨rfl, rfl⟩ := hends.unique hl
            exact ⟨⟨_, hs⟩, _, ht⟩
          · cases h
      · rintro ⟨line, word, role, hbad, rfl⟩
        cases hbad with
        | source h hs =>
          obtain ⟨rfl, rfl⟩ := hends.unique h
          exact .inl (.inl ⟨hs, rfl⟩)
        | target h hs ht =>
          obtain ⟨rfl, rfl⟩ := hends.unique h
          exact .inl (.inr ⟨hs, ht, rfl⟩)
        | later hl hbad =>
          obtain ⟨⟨s, hs⟩, t, ht⟩ := hl _ _ hends
          refine .inr ⟨⟨s, t, 1⟩, DataLine.edge_eq_ok_iff.2 ⟨hs, ht, rfl⟩, ?_⟩
          exact bind_eq_error_iff.2 (.inl (ih.2 ⟨line, word, role, hbad, rfl⟩))

/-- There is a first bad word if there is a bad one. -/
theorem exists_firstBadWord_iff :
    (∃ line word role, FirstBadWord n ls line word role) ↔ ∃ l ∈ ls, ¬ IsGood l := by
  constructor
  · rintro ⟨line, word, role, h⟩
    induction h with
    | source h hs => exact ⟨_, List.mem_cons_self, fun hl => hs (hl _ _ h).1⟩
    | target h _ ht => exact ⟨_, List.mem_cons_self, fun hl => ht (hl _ _ h).2⟩
    | later _ _ ih =>
      obtain ⟨l, hl, hbad⟩ := ih
      exact ⟨l, List.mem_cons_of_mem _ hl, hbad⟩
  · rintro ⟨l, hl, hbad⟩
    induction ls generalizing n with
    | nil => exact absurd hl List.not_mem_nil
    | cons m rest ih =>
      by_cases hm : IsGood m
      · rcases List.mem_cons.1 hl with rfl | hl
        · exact absurd hm hbad
        · obtain ⟨line, word, role, h⟩ := ih (n := n + 1) hl
          exact ⟨line, word, role, .later hm h⟩
      · simp only [IsGood, not_forall] at hm
        obtain ⟨source, target, hends, hnot⟩ := hm
        by_cases hs : IsVertex source
        · exact ⟨_, _, _, .target hends hs fun ht => hnot ⟨hs, ht⟩⟩
        · exact ⟨_, _, _, .source hends hs⟩

/-! ### The edges that lines give -/

/-- The words for the ends of the edge that a line gives, if it gives one. -/
def ends? (l : List Char) : Option (List Char × List Char) :=
  (dataLine? l 0).map fun d => (d.source, d.target)

theorem ends?_eq_some_iff : ends? l = some (source, target) ↔ GivesEnds l source target := by
  unfold ends?
  rw [Option.map_eq_some_iff]
  constructor
  · rintro ⟨d, hd, heq⟩
    obtain ⟨rfl, rfl⟩ := Prod.mk.inj heq
    exact (dataLine?_eq_some_iff.1 hd).2
  · exact fun h => ⟨⟨0, source, target⟩, dataLine?_eq_some_iff.2 ⟨rfl, h⟩, rfl⟩

theorem ends?_eq_none_iff : ends? l = none ↔ ¬ IsDataLine l := by
  unfold ends?
  rw [Option.map_eq_none_iff, dataLine?_eq_none_iff]

/-- Which words a line has for ends does not depend on its number. -/
theorem map_dataLinesFrom (n : Nat) (ls : List (List Char)) :
    ((dataLinesFrom n ls).map fun d => (d.source, d.target)) = ls.filterMap ends? := by
  induction ls generalizing n with
  | nil => rfl
  | cons l rest ih =>
    cases hd : dataLine? l n with
    | none =>
      rw [dataLinesFrom_of_none hd, ih,
        List.filterMap_cons_none (ends?_eq_none_iff.2 (dataLine?_eq_none_iff.1 hd))]
    | some d =>
      rw [dataLinesFrom_of_some hd, List.map_cons, ih,
        List.filterMap_cons_some (ends?_eq_some_iff.2 (dataLine?_eq_some_iff.1 hd).2)]

/-- **Reading finds the edges** that the words for ends say. -/
theorem mapM_edge_eq_ok_iff :
    (dataLinesFrom n ls).mapM DataLine.edge = .ok edges ↔
      List.Forall₂ Says (ls.filterMap ends?) edges := by
  rw [mapM_eq_ok_iff, ← map_dataLinesFrom n, List.forall₂_map_left_iff]
  simp only [DataLine.edge_eq_ok_iff]

instance : DecidablePred IsDataLine := fun l =>
  decidable_of_iff ((ends? l).isSome = true) (by
    rw [← not_iff_not, ← ends?_eq_none_iff, Option.not_isSome_iff_eq_none])

instance (l : List Char) (u v : UInt32) : Decidable (GivesEdge l u v) :=
  decidable_of_iff ((dataLine? l 0).map DataLine.edge = some (.ok ⟨u, v, 1⟩)) (by
    rw [Option.map_eq_some_iff]
    constructor
    · rintro ⟨d, hd, he⟩
      obtain ⟨hs, ht, _⟩ := DataLine.edge_eq_ok_iff.1 he
      exact ⟨_, _, (dataLine?_eq_some_iff.1 hd).2, hs, ht⟩
    · rintro ⟨source, target, hends, hs, ht⟩
      exact ⟨⟨0, source, target⟩, dataLine?_eq_some_iff.2 ⟨rfl, hends⟩,
        DataLine.edge_eq_ok_iff.2 ⟨hs, ht, rfl⟩⟩)

theorem eq_of_denotes {v w : UInt32} (hv : Denotes word v.toNat) (hw : Denotes word w.toNat) :
    v = w := by
  rw [← Text.readWord_eq_ok_iff] at hv hw
  rw [hv] at hw
  exact Except.ok.inj hw

/-- A line whose words for ends say an edge gives this edge and no other. -/
theorem givesEdge_iff_of_says (hends : GivesEnds l source target) (he : Says (source, target) e) :
    GivesEdge l u v ↔ e = ⟨u, v, 1⟩ := by
  obtain ⟨hs, ht, hw⟩ := he
  constructor
  · rintro ⟨source', target', hends', hu, hv⟩
    obtain ⟨rfl, rfl⟩ := hends.unique hends'
    obtain ⟨s, t, w⟩ := e
    obtain rfl := eq_of_denotes hs hu
    obtain rfl := eq_of_denotes ht hv
    rw [show w = 1 from hw]
  · rintro rfl
    exact ⟨source, target, hends, hs, ht⟩

/-- **An edge is read as often as lines give it.** -/
theorem countP_givesEdge (h : List.Forall₂ Says (ls.filterMap ends?) edges) (u v : UInt32) :
    ls.countP (GivesEdge · u v) = edges.count ⟨u, v, 1⟩ := by
  induction ls generalizing edges with
  | nil =>
    cases h
    rfl
  | cons l rest ih =>
    cases hl : ends? l with
    | none =>
      rw [List.filterMap_cons_none hl] at h
      have hnot : ¬ GivesEdge l u v := fun ⟨s, t, hends, _⟩ =>
        ends?_eq_none_iff.1 hl ⟨s, t, hends⟩
      rw [List.countP_cons_of_neg (by simpa using hnot), ih h]
    | some ends =>
      rw [List.filterMap_cons_some hl] at h
      cases h with
      | @cons _ e _ edges hsays hrest =>
        have hiff : GivesEdge l u v ↔ e = ⟨u, v, 1⟩ :=
          givesEdge_iff_of_says (ends?_eq_some_iff.1 hl) hsays
        rw [List.countP_cons, List.count_cons, ih hrest]
        simp only [hiff, decide_eq_true_eq, beq_iff_eq]

/-- As many edges are read as there are lines that give one. -/
theorem length_eq_countP (h : List.Forall₂ Says (ls.filterMap ends?) edges) :
    edges.length = ls.countP IsDataLine := by
  rw [← h.length_eq, List.length_filterMap_eq_countP]
  refine List.countP_congr fun l _ => ?_
  rw [decide_eq_true_eq, ← not_iff_not, ← ends?_eq_none_iff, Option.not_isSome_iff_eq_none]

theorem weight_of_says (h : List.Forall₂ Says (ls.filterMap ends?) edges) (he : e ∈ edges) :
    e.weight = 1 := by
  obtain ⟨d, _, hd⟩ := exists_of_mem_of_mapM (mapM_edge_eq_ok_iff (n := 0).2 h) he
  exact DataLine.weight_of_edge hd

/-- The edges that are read are those that lines give. -/
theorem exists_givesEdge_iff (h : List.Forall₂ Says (ls.filterMap ends?) edges) :
    (∃ l ∈ ls, GivesEdge l u v) ↔ ⟨u, v, 1⟩ ∈ edges := by
  rw [← List.count_pos_iff, ← countP_givesEdge h, List.countP_pos_iff]
  simp only [decide_eq_true_eq]

/-! ### The graph of lines -/

/-- The graph has the edges that lines give: as many vertices as the greatest end needs, all weights 1,
    and for each vertex the targets in order, each as often as it is given. -/
structure Tells (ls : List (List Char)) (g : Graph) : Prop where
  numNodes_least :
    IsLeast {n | ∀ l ∈ ls, ∀ u v, GivesEdge l u v → u.toNat < n ∧ v.toNat < n} g.numNodes
  weight_eq : ∀ v, ∀ a ∈ g.arcs v, a.weight = 1
  ascending : ∀ v, (g.arcs v).Pairwise (·.target ≤ ·.target)
  count_eq : ∀ u v : UInt32,
    (g.arcs u.toNat).countP (·.target == v) = ls.countP (GivesEdge · u v)

/-- Edges by their ends. -/
def sortByEnds (edges : List Edge) : List Edge :=
  edges.mergeSort fun e f => pairLe e.ends f.ends

theorem perm_sortByEnds (edges : List Edge) : (sortByEnds edges).Perm edges :=
  List.mergeSort_perm edges _

theorem pairwise_sortByEnds (edges : List Edge) :
    (sortByEnds edges).Pairwise (pairKey ·.ends ≤ pairKey ·.ends) := by
  have horder : (fun e f : Edge => pairLe e.ends f.ends) = keyLE fun e => pairKey e.ends := by
    rw [pairLe_eq_keyLE]
    rfl
  unfold sortByEnds
  rw [horder]
  exact pairwise_mergeSort_key _ edges

/-- **Order does not matter:** edges of one weight are known by their ends, so they are sorted alike
    whatever their order was. -/
theorem sortByEnds_eq_of_perm {edges' : List Edge} (h : edges.Perm edges')
    (hweight : ∀ e ∈ edges, e.weight = 1) : sortByEnds edges = sortByEnds edges' := by
  have hperm := (perm_sortByEnds edges).trans (h.trans (perm_sortByEnds edges').symm)
  refine hperm.eq_of_pairwise (fun e f he hf hef hfe => ?_) (pairwise_sortByEnds edges)
    (pairwise_sortByEnds edges')
  have hends : e.ends = f.ends := pairKey_inj.1 (Nat.le_antisymm hef hfe)
  obtain ⟨hs, ht⟩ := Prod.mk.inj hends
  have he1 := hweight e ((perm_sortByEnds edges).mem_iff.1 he)
  have hf1 := hweight f (h.mem_iff.2 ((perm_sortByEnds edges').mem_iff.1 hf))
  obtain ⟨s, t, w⟩ := e
  obtain ⟨s', t', w'⟩ := f
  dsimp only at hs ht he1 hf1
  rw [hs, ht, he1, hf1]

/-- The edges need just the vertices that lines name. -/
theorem isLeast_nodesNeeded (h : List.Forall₂ Says (ls.filterMap ends?) edges) :
    IsLeast {n | ∀ l ∈ ls, ∀ u v, GivesEdge l u v → u.toNat < n ∧ v.toNat < n}
      (nodesNeeded (sortByEnds edges)) := by
  -- A number of vertices is enough for the lines if it is for the edges, in whatever order.
  have hset : {n | ∀ l ∈ ls, ∀ u v, GivesEdge l u v → u.toNat < n ∧ v.toNat < n} =
      {n | nodesNeeded (sortByEnds edges) ≤ n} := by
    ext n
    rw [Set.mem_ofPred_eq, Set.mem_ofPred_eq, nodesNeeded_le_iff]
    simp only [(perm_sortByEnds edges).mem_iff]
    constructor
    · intro hall e he
      have hone : (⟨e.source, e.target, 1⟩ : Edge) = e := by rw [← weight_of_says h he]
      obtain ⟨l, hl, hgives⟩ := (exists_givesEdge_iff h).2 (hone ▸ he)
      exact hall l hl _ _ hgives
    · intro hall l hl u v hgives
      exact hall _ ((exists_givesEdge_iff h).1 ⟨l, hl, hgives⟩)
  rw [hset]
  exact ⟨Nat.le_refl _, fun n hn => hn⟩

/-- The graph of sorted edges with weights of 1 has the edges that lines give. -/
theorem tells_of_ofEdgeList (h : List.Forall₂ Says (ls.filterMap ends?) edges)
    (hg : ofEdgeList (sortByEnds edges) = .ok g) : Tells ls g := by
  have hmem {e : Edge} : e ∈ sortByEnds edges ↔ e ∈ edges := (perm_sortByEnds edges).mem_iff
  have hweight {e : Edge} (he : e ∈ edges) : e.weight = 1 := weight_of_says h he
  unfold ofEdgeList at hg
  refine ⟨?_, fun v a ha => ?_, fun v => ?_, fun u v => ?_⟩
  · rw [numNodes_of_ofEdges hg]
    exact isLeast_nodesNeeded h
  · obtain ⟨e, he, _, rfl⟩ := (mem_arcs_of_ofEdges hg).1 ha
    exact hweight (hmem.1 he)
  · exact (pairwise_arcs_of_ofEdges Nat.le_of_add_le_add_left hg (pairwise_sortByEnds edges) v).imp
      UInt32.le_iff_toNat_le.2
  · rw [countP_givesEdge h, arcs_of_ofEdges hg, List.countP_map, List.countP_filter,
      ← (perm_sortByEnds edges).count_eq]
    refine List.countP_congr fun e he => ?_
    obtain ⟨source, target, weight⟩ := e
    have hone : weight = 1 := hweight (hmem.1 he)
    simp only [Function.comp_apply, Edge.arc, Bool.and_eq_true, beq_iff_eq,
      Edge.mk.injEq, UInt32.toNat_inj, hone, and_true]
    exact and_comm

/-! ### Changes of lines that leave the edges alone -/

/-- A change of lines: they are put in another order, a comment or a line of less than two words is put
    among them, or words are put behind a line that has two. -/
inductive Edit : List (List Char) → List (List Char) → Prop
  | permute {ls ls' : List (List Char)} (h : ls.Perm ls') : Edit ls ls'
  | insert {before after : List (List Char)} {l : List Char}
      (h : (trim l).head? = some '#' ∨ (words l).length < 2) :
      Edit (before ++ after) (before ++ l :: after)
  | widen {before after : List (List Char)} {l more : List Char} {c : Char}
      (hl : 2 ≤ (words l).length) (hc : isBlank c = true) :
      Edit (before ++ l :: after) (before ++ (l ++ c :: more) :: after)

theorem length_words_lt_two_iff :
    (words l).length < 2 ↔ ¬ ∃ source target further, words l = source :: target :: further := by
  rcases words l with _ | ⟨source, _ | ⟨target, further⟩⟩
  all_goals simp

theorem not_isDataLine_iff :
    ¬ IsDataLine l ↔ (trim l).head? = some '#' ∨ (words l).length < 2 := by
  have hdata : IsDataLine l ↔ (trim l).head? ≠ some '#' ∧
      ∃ source target further, words l = source :: target :: further := by
    constructor
    · rintro ⟨source, target, hcomment, further, hwords⟩
      exact ⟨hcomment, source, target, further, hwords⟩
    · rintro ⟨hcomment, source, target, further, hwords⟩
      exact ⟨source, target, hcomment, further, hwords⟩
  rw [hdata, not_and_or, not_not, length_words_lt_two_iff]

/-- Words behind the first two of a line are not looked at. -/
theorem ends?_widen {more : List Char} {c : Char} (hl : 2 ≤ (words l).length)
    (hc : isBlank c = true) : ends? (l ++ c :: more) = ends? l := by
  obtain ⟨source, target, further, hwords⟩ :=
    not_not.1 (mt length_words_lt_two_iff.2 (Nat.not_lt.2 hl))
  -- The blank ends the last word of the line, so all its words stay what they are.
  have hwide : words (l ++ c :: more) = source :: target :: (further ++ words more) := by
    rw [Text.words_append_blank hc, hwords]
    rfl
  have htrim : (trim (l ++ c :: more)).head? = (trim l).head? := by
    rw [Text.head?_trim, Text.head?_trim, hwide, hwords]
    rfl
  unfold ends? dataLine?
  rw [htrim, hwide, hwords]

/-- **A change leaves the words for ends alone,** up to their order. -/
theorem Edit.perm_ends {ls' : List (List Char)} (h : Edit ls ls') :
    (ls.filterMap ends?).Perm (ls'.filterMap ends?) := by
  cases h with
  | permute h => exact h.filterMap _
  | @insert before after l h =>
    rw [List.filterMap_append, List.filterMap_append,
      List.filterMap_cons_none (ends?_eq_none_iff.2 (not_isDataLine_iff.2 h))]
  | @widen before after l more c hl hc =>
    rw [List.filterMap_append, List.filterMap_append, List.filterMap_cons, List.filterMap_cons,
      ends?_widen hl hc]

theorem perm_ends_of_eqvGen {ls' : List (List Char)} (h : Relation.EqvGen Edit ls ls') :
    (ls.filterMap ends?).Perm (ls'.filterMap ends?) := by
  induction h with
  | rel _ _ h => exact h.perm_ends
  | refl _ => exact .refl _
  | symm _ _ _ ih => exact ih.symm
  | trans _ _ _ _ _ ih₁ ih₂ => exact ih₁.trans ih₂

/-! ### Texts -/

variable {text text' : List Char}

/-- **The graph of a text** is that of the edges its lines give, in order. -/
theorem ofEdgeListText_eq_ok_iff :
    ofEdgeListText text = .ok g ↔
      ∃ edges, List.Forall₂ Says ((lines text).filterMap ends?) edges ∧
        ofEdgeList (sortByEnds edges) = .ok g := by
  unfold ofEdgeListText
  rw [bind_eq_ok_iff]
  exact exists_congr fun edges => and_congr_left fun _ => mapM_edge_eq_ok_iff (n := 1)

/-- Texts that give the same edges, in whatever order, have the same graph. -/
theorem ofEdgeListText_of_perm
    (h : ((lines text).filterMap ends?).Perm ((lines text').filterMap ends?))
    (hg : ofEdgeListText text = .ok g) : ofEdgeListText text' = .ok g := by
  obtain ⟨edges, hedges, hg⟩ := ofEdgeListText_eq_ok_iff.1 hg
  obtain ⟨edges', hedges', hperm⟩ := List.perm_comp_forall₂ h.symm hedges
  refine ofEdgeListText_eq_ok_iff.2 ⟨edges', hedges', ?_⟩
  rw [← hg, sortByEnds_eq_of_perm hperm fun e he => weight_of_says hedges' he]

/-- **A bad word** is reported if it is the first one. -/
theorem ofEdgeListText_eq_badToken_iff :
    ofEdgeListText text = .error (.badToken line word role) ↔
      FirstBadWord 1 (lines text) line word role := by
  unfold ofEdgeListText
  rw [bind_eq_error_iff]
  constructor
  · rintro (h | ⟨edges, _, h⟩)
    · obtain ⟨line', word', role', hbad, heq⟩ := mapM_edge_eq_error_iff.1 h
      cases heq
      exact hbad
    · -- Edges that were read have no bad words.
      obtain ⟨_, heq⟩ | ⟨_, _, heq⟩ | ⟨_, _, _, _, heq⟩ := ofEdges_eq_error_iff.1 h
      all_goals cases heq
  · exact fun h => .inl (mapM_edge_eq_error_iff.2 ⟨line, word, role, h, rfl⟩)

/-- The words for ends say edges if none of them is bad. -/
theorem exists_says_iff :
    (∃ edges, List.Forall₂ Says (ls.filterMap ends?) edges) ↔ ∀ l ∈ ls, IsGood l := by
  have hbad : (∃ l ∈ ls, ¬ IsGood l) ↔
      ∃ error, (dataLinesFrom 0 ls).mapM DataLine.edge = .error error := by
    rw [← exists_firstBadWord_iff (n := 0)]
    simp only [mapM_edge_eq_error_iff]
    constructor
    · rintro ⟨line, word, role, h⟩
      exact ⟨_, line, word, role, h, rfl⟩
    · rintro ⟨_, line, word, role, h, _⟩
      exact ⟨line, word, role, h⟩
  cases hread : (dataLinesFrom 0 ls).mapM DataLine.edge with
  | ok edges =>
    refine iff_of_true ⟨edges, mapM_edge_eq_ok_iff.1 hread⟩ fun l hl => ?_
    by_contra hnot
    obtain ⟨error, herror⟩ := hbad.1 ⟨l, hl, hnot⟩
    rw [hread] at herror
    cases herror
  | error error =>
    obtain ⟨l, hl, hnot⟩ := hbad.2 ⟨error, hread⟩
    refine iff_of_false (fun ⟨edges, hedges⟩ => ?_) fun hall => hnot (hall l hl)
    rw [mapM_edge_eq_ok_iff.2 hedges] at hread
    cases hread

/-- **Edges without bad words** build a graph or are too many. -/
theorem ofEdgeListText_eq_ofEdgeList
    (h : List.Forall₂ Says ((lines text).filterMap ends?) edges) :
    ofEdgeListText text = ofEdgeList (sortByEnds edges) := by
  have hread : (dataLines text).mapM DataLine.edge = .ok edges :=
    mapM_edge_eq_ok_iff (n := 1).2 h
  unfold ofEdgeListText
  rw [hread]
  rfl

theorem givesGreatest_iff (h : List.Forall₂ Says (ls.filterMap ends?) edges) :
    GivesGreatest ls ↔ ∃ e ∈ edges, e.source.toNat = maxWord ∨ e.target.toNat = maxWord := by
  constructor
  · rintro ⟨l, hl, u, v, hgives, hmax⟩
    exact ⟨_, (exists_givesEdge_iff h).1 ⟨l, hl, hgives⟩, hmax⟩
  · rintro ⟨e, he, hmax⟩
    have hone : (⟨e.source, e.target, 1⟩ : Edge) = e := by rw [← weight_of_says h he]
    obtain ⟨l, hl, hgives⟩ := (exists_givesEdge_iff h).2 (hone ▸ he)
    exact ⟨l, hl, _, _, hgives, hmax⟩

/-- The greatest word makes the vertices too many, in whatever order its edge comes. -/
theorem givesGreatest_iff_lt (h : List.Forall₂ Says (ls.filterMap ends?) edges) :
    GivesGreatest ls ↔ maxWord < nodesNeeded (sortByEnds edges) := by
  rw [givesGreatest_iff h, ← Nat.not_le, nodesNeeded_le_maxWord_iff]
  simp only [(perm_sortByEnds edges).mem_iff, not_forall, Classical.not_and_iff_not_or_not, not_not,
    exists_prop]

/-- **Edge lists as text.** A text is refused for a bad word if some line has one, and then for the
    first; otherwise it gives the graph of the edges on its lines, unless words cannot count its vertices
    or its edges. Putting the lines in another order, putting lines among them that give no edge, and
    putting further words behind the first two of a line do not change the graph. -/
theorem ofEdgeListText_grammar (text : List Char) :
    (∀ line word role, ofEdgeListText text = .error (.badToken line word role) ↔
      FirstBadWord 1 (lines text) line word role) ∧
    ((∃ line word role, FirstBadWord 1 (lines text) line word role) ↔
      ∃ l ∈ lines text, ¬ IsGood l) ∧
    ((∀ l ∈ lines text, IsGood l) →
      (¬ GivesGreatest (lines text) → (lines text).countP IsDataLine ≤ maxWord →
        ∃ g, ofEdgeListText text = .ok g ∧ Tells (lines text) g) ∧
      (GivesGreatest (lines text) → ofEdgeListText text = .error (.tooLarge (maxWord + 1))) ∧
      (¬ GivesGreatest (lines text) → maxWord < (lines text).countP IsDataLine →
        ofEdgeListText text = .error (.tooLarge ((lines text).countP IsDataLine)))) ∧
    ∀ text' g, Relation.EqvGen Edit (lines text) (lines text') →
      (ofEdgeListText text = .ok g ↔ ofEdgeListText text' = .ok g) := by
  refine ⟨fun _ _ _ => ofEdgeListText_eq_badToken_iff, exists_firstBadWord_iff, fun hgood => ?_,
    fun text' g h => ?_⟩
  · obtain ⟨edges, hedges⟩ := exists_says_iff.2 hgood
    have hlength : (sortByEnds edges).length = (lines text).countP IsDataLine := by
      rw [(perm_sortByEnds edges).length_eq, length_eq_countP hedges]
    rw [ofEdgeListText_eq_ofEdgeList hedges, givesGreatest_iff_lt hedges, ← hlength, Nat.not_lt]
    refine ⟨fun hfew hcount => ?_, fun hmany => ?_, fun hfew hcount => ?_⟩
    · obtain ⟨g, hg⟩ := exists_ofEdgeList_iff.2 ⟨hfew, hcount⟩
      exact ⟨g, hg, tells_of_ofEdgeList hedges hg⟩
    · exact ofEdgeList_eq_error_of_greatest hmany
    · exact ofEdges_eq_error_iff.2 (.inr (.inl ⟨hfew, hcount, rfl⟩))
  · have hperm := perm_ends_of_eqvGen h
    exact ⟨ofEdgeListText_of_perm hperm, ofEdgeListText_of_perm hperm.symm⟩

/-! ### A text with all kinds of lines -/

/-- The general theorem at a text with a comment, blank lines, a line of one word, further words and
    parallel edges, at the same lines in another order and without the comment, and at texts with a bad
    word and with the greatest word. -/
theorem ofEdgeListText_grammar_allKinds :
    let text := "1 3 0.5\n# ids\n\n7\n0 +2\n 1\t0\n1 3\n".toList
    let other := "1 3\n7\n1 3 0.5\n\n\n 1\t0\n0 +2".toList
    (∀ l ∈ lines text, IsGood l) ∧ ¬ GivesGreatest (lines text) ∧
      (lines text).countP IsDataLine = 4 ∧ Relation.EqvGen Edit (lines text) (lines other) ∧
      (∃ g, ofEdgeListText text = .ok g ∧ Tells (lines text) g ∧ ofEdgeListText other = .ok g ∧
        (g.arcs 1).countP (·.target == 3) = 2) ∧
      FirstBadWord 1 (lines "0 1\n1 -2 x".toList) 2 "-2".toList .target ∧
      ofEdgeListText "0 1\n1 -2 x".toList = .error (.badToken 2 "-2".toList .target) ∧
      GivesGreatest (lines "0 4294967295".toList) ∧
      ofEdgeListText "0 4294967295".toList = .error (.tooLarge 4294967296) := by
  intro text other
  have hlines : lines text = ["1 3 0.5".toList] ++ "# ids".toList ::
      [[], "7".toList, "0 +2".toList, " 1\t0".toList, "1 3".toList, []] := by decide +kernel
  have hother : lines other = ["1 3".toList, "7".toList, "1 3 0.5".toList, [], [],
      " 1\t0".toList, "0 +2".toList] := by decide +kernel
  have hsays : List.Forall₂ Says ((lines text).filterMap ends?)
      [⟨1, 3, 1⟩, ⟨0, 2, 1⟩, ⟨1, 0, 1⟩, ⟨1, 3, 1⟩] :=
    mapM_edge_eq_ok_iff (n := 1).1 (by decide +kernel)
  have hgreatest : List.Forall₂ Says ((lines "0 4294967295".toList).filterMap ends?)
      [⟨0, 4294967295, 1⟩] :=
    mapM_edge_eq_ok_iff (n := 1).1 (by decide +kernel)
  have hgood := exists_says_iff.1 ⟨_, hsays⟩
  have hfew : ¬ GivesGreatest (lines text) := by
    rw [givesGreatest_iff hsays]
    decide
  have hmany : GivesGreatest (lines "0 4294967295".toList) := by
    rw [givesGreatest_iff hgreatest]
    decide
  have hcount : (lines text).countP IsDataLine = 4 := (length_eq_countP hsays).symm
  have hsame : Relation.EqvGen Edit (lines text) (lines other) := by
    rw [hlines, hother]
    exact .trans _ _ _ (.symm _ _ (.rel _ _ (.insert (.inl (by decide +kernel)))))
      (.rel _ _ (.permute (by decide +kernel)))
  have hbad : FirstBadWord 1 (lines "0 1\n1 -2 x".toList) 2 "-2".toList .target := by
    obtain ⟨line, word, role, h, heq⟩ := mapM_edge_eq_error_iff.1 (by decide +kernel :
      (dataLinesFrom 1 (lines "0 1\n1 -2 x".toList)).mapM DataLine.edge =
        .error (.badToken 2 "-2".toList .target))
    obtain ⟨rfl, rfl, rfl⟩ := GraphError.badToken.inj heq
    exact h
  obtain ⟨_, _, hgraph, hedit⟩ := ofEdgeListText_grammar text
  obtain ⟨g, hg, htells⟩ := (hgraph hgood).1 hfew (by rw [hcount]; decide)
  refine ⟨hgood, hfew, hcount, hsame, ⟨g, hg, htells, (hedit other g hsame).1 hg, ?_⟩, hbad,
    ((ofEdgeListText_grammar _).1 _ _ _).2 hbad, hmany,
    ((ofEdgeListText_grammar _).2.2.1 (exists_says_iff.1 ⟨_, hgreatest⟩)).2.1 hmany⟩
  have htwice : (g.arcs 1).countP (·.target == 3) = (lines text).countP (GivesEdge · 1 3) :=
    htells.count_eq 1 3
  rw [htwice, countP_givesEdge hsays]
  decide

end SparseGraph.Graph
