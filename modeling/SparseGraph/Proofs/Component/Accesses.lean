import SparseGraph.Component.Accesses
import SparseGraph.Proofs.Component.Forest

namespace SparseGraph.Component

/-!
# Finding components, access by access

Between any two accesses the array holds the pointers of a forest, so that no pointer leads to a
greater vertex, and the trees of this forest are what the edges so far join. A step either moves a
pointer within its tree, or joins two trees for the next edge, or moves none, and every step leaves
fewer to do.

* `TreesOf` — the trees of a forest are what edges join; `TreesOf.link` — one more edge;
* `Machine.Holds` — the forest whose pointers are in the array, and what is known of its roots;
* `Machine.Holds.step`, `Machine.Holds.after` — one step and several;
* `Machine.Holds.sound` — what the pointers are in the middle of a run;
* `weakComponents_by_accesses` — every run ends, with the least vertex joined to each.
-/

variable {g : Graph} {edges done : List Edge} {e : Edge} {u v w : Nat}

/-! ### Edges that join -/

theorem Joined.trans (h₁ : Joined edges u v) (h₂ : Joined edges v w) : Joined edges u w := by
  induction h₂ with
  | stay => exact h₁
  | along _ he ih => exact .along ih he
  | against _ he ih => exact .against ih he

theorem Joined.symm (h : Joined edges u v) : Joined edges v u := by
  induction h with
  | stay => exact .stay
  | along _ he ih => exact .trans (.against .stay he) ih
  | against _ he ih => exact .trans (.along .stay he) ih

theorem Joined.mono {more : List Edge} (hsub : edges ⊆ more) (h : Joined edges u v) :
    Joined more u v := by
  induction h with
  | stay => exact .stay
  | along _ he ih => exact .along ih (hsub he)
  | against _ he ih => exact .against ih (hsub he)

/-- Whatever the ends of all edges agree in, joined vertices agree in. -/
theorem Joined.eq_of_forall {f : Nat → Nat} (h : Joined edges u v)
    (hends : ∀ e ∈ edges, f e.source.toNat = f e.target.toNat) : f u = f v := by
  induction h with
  | stay => rfl
  | along _ he ih => exact ih.trans (hends _ he)
  | against _ he ih => exact ih.trans (hends _ he).symm

/-- All edges of a graph join what it links. -/
theorem joined_edges_iff (hn : g.numNodes ≤ Text.maxWord) :
    Joined g.edges u v ↔ g.Linked u v := by
  constructor
  · intro h
    induction h with
    | stay => exact .stay
    | along _ he ih => exact ih.trans (Forest.ends_of_mem_edges hn he).2
    | against _ he ih => exact ih.trans (Forest.ends_of_mem_edges hn he).2.symm
  · intro h
    have harc : ∀ {w : Nat} {a : Arc}, a ∈ g.arcs w → Joined g.edges w a.target.toNat := by
      intro w a ha
      have hw := Graph.lt_of_mem_arcs ha
      have hjoined : Joined g.edges (a.edgeFrom (UInt32.ofNat w)).source.toNat a.target.toNat :=
        .along (e := a.edgeFrom (UInt32.ofNat w)) .stay
          ((Graph.mem_edges_iff hn).2 ⟨w, hw, a, ha, rfl⟩)
      rwa [Arc.source_edgeFrom, Graph.toNat_ofNat_of_lt hn hw] at hjoined
    induction h with
    | stay => exact .stay
    | along _ ha ih => exact ih.trans (harc ha)
    | against _ ha ih => exact ih.trans (harc ha).symm

/-! ### Trees of edges -/

/-- Two vertices have one root if and only if the edges join them. -/
def TreesOf (edges : List Edge) (root : Nat → Nat) : Prop :=
  ∀ u v, root u = root v ↔ Joined edges u v

/-- **One more edge.** Once the root of one of its ends has become that of the other, the trees are
    those of one edge more. -/
theorem TreesOf.link {root root' : Nat → Nat} {i j : Nat} (h : TreesOf done root)
    (hroot : ∀ v, root (root v) = root v)
    (hends : root e.source.toNat = i ∧ root e.target.toNat = j ∨
      root e.source.toNat = j ∧ root e.target.toNat = i)
    (hroot' : ∀ v, root' v = if root v = i then j else root v) :
    TreesOf (done ++ [e]) root' := by
  have hsub : done ⊆ done ++ [e] := List.subset_append_left _ _
  have hmem : e ∈ done ++ [e] := List.mem_append_right _ List.mem_cons_self
  -- The root of a vertex is joined to it, before and after.
  have hold : ∀ v, Joined (done ++ [e]) (root v) v :=
    fun v => ((h _ _).1 (hroot v)).mono hsub
  have hedge : Joined (done ++ [e]) j i := by
    have hst : Joined (done ++ [e]) (root e.source.toNat) (root e.target.toNat) :=
      ((hold _).trans (.along .stay hmem)).trans (hold _).symm
    rcases hends with ⟨rfl, rfl⟩ | ⟨rfl, rfl⟩
    · exact hst.symm
    · exact hst
  have hnew : ∀ v, Joined (done ++ [e]) (root' v) v := by
    intro v
    rw [hroot']
    split
    next hv =>
      rw [← hv] at hedge
      exact hedge.trans (hold v)
    next => exact hold v
  intro u v
  constructor
  · intro heq
    have hu := hnew u
    rw [heq] at hu
    exact hu.symm.trans (hnew v)
  · intro huv
    refine huv.eq_of_forall fun d hd => ?_
    rw [hroot', hroot']
    rcases List.mem_append.1 hd with hd | hd
    · rw [(h _ _).2 (.along .stay hd)]
    · rw [List.mem_singleton.1 hd]
      rcases hends with ⟨hs, ht⟩ | ⟨hs, ht⟩
      · rw [hs, ht, if_pos rfl, ite_self]
      · rw [hs, ht, if_pos rfl, ite_self]

/-! ### Accesses to a forest -/

namespace Forest

variable {f : Forest} {i j r x : Nat}

theorem getElem?_parent (hx : x < f.parent.size) : f.parent[x]? = some (f.parentOf x) := by
  unfold parentOf
  rw [Array.getElem?_eq_getElem hx, Array.getD_eq_getD_getElem?, Array.getElem?_eq_getElem hx]
  rfl

theorem parentOf_of_getElem? (h : f.parent[x]? = some r) : f.parentOf x = r := by
  rw [parentOf, Array.getD_eq_getD_getElem?, h]
  rfl

theorem write?_parent (le : j ≤ i) (hi : i < f.parent.size) :
    write? f.parent i j = some (f.point i j le).parent := by
  rw [write?, if_pos hi]
  rfl

theorem root_lt (hx : x < f.parent.size) : f.root x < f.parent.size :=
  Nat.lt_of_le_of_lt (f.root_le x) hx

/-- **Pointers end at roots.** -/
theorem ends_iff (hx : x < f.parent.size) : Ends f.parent x r ↔ r = f.root x := by
  constructor
  · intro h
    induction h with
    | root h => exact (root_of_parentOf_eq (parentOf_of_getElem? h)).symm
    | @up v p r h _ ih =>
      have hp := parentOf_of_getElem? h
      have hlt : p < f.parent.size := by
        rw [← hp]
        exact Nat.lt_of_le_of_lt (f.parentOf_le v) hx
      rw [ih hlt, ← hp, root_parentOf]
  · rintro rfl
    fun_induction root f x with
    | case1 x h =>
      have hself := getElem?_parent hx
      rw [h] at hself
      exact .root hself
    | case2 x h ih =>
      exact .up (getElem?_parent hx) (ih (Nat.lt_of_le_of_lt (f.parentOf_le x) hx))

/-- **Joining** the ends of an edge makes the trees those of one edge more. -/
theorem exists_link (h : TreesOf done f.root) (hs : e.source.toNat < f.parent.size)
    (ht : e.target.toNat < f.parent.size) :
    ∃ f' : Forest,
      link? f.parent (f.root e.source.toNat) (f.root e.target.toNat) = some f'.parent ∧
        f'.parent.size = f.parent.size ∧ TreesOf (done ++ [e]) f'.root := by
  have hroot := f.root_root
  unfold link?
  rcases Nat.lt_trichotomy (f.root e.source.toNat) (f.root e.target.toNat) with hlt | heq | hlt
  · refine ⟨f.point _ _ (Nat.le_of_lt hlt), ?_, size_point _ _ _ _, ?_⟩
    · rw [if_pos hlt, write?_parent (Nat.le_of_lt hlt) (root_lt ht)]
    · exact h.link hroot (.inr ⟨rfl, rfl⟩)
        (root_point_root (root_lt ht) hlt (f.parentOf_root _) (f.parentOf_root _))
  · refine ⟨f, ?_, rfl, ?_⟩
    · rw [heq, if_neg (Nat.lt_irrefl _), if_neg (Nat.lt_irrefl _)]
    · refine h.link hroot (.inl ⟨rfl, heq.symm⟩) fun v => ?_
      split
      next hv => exact hv
      next => rfl
  · refine ⟨f.point _ _ (Nat.le_of_lt hlt), ?_, size_point _ _ _ _, ?_⟩
    · rw [if_neg (Nat.lt_asymm hlt), if_pos hlt, write?_parent (Nat.le_of_lt hlt) (root_lt hs)]
    · exact h.link hroot (.inl ⟨rfl, rfl⟩)
        (root_point_root (root_lt hs) hlt (f.parentOf_root _) (f.parentOf_root _))

end Forest

/-! ### What is known in the middle of a run -/

/-- What is known of the root that is searched from `x`. -/
def Goal.Fits (n : Nat) (root : Nat → Nat) (x : Nat) : Goal → Prop
  | .source e _ => root x = root e.source.toNat
  | .target e other _ => other = root e.source.toNat ∧ root x = root e.target.toNat
  | .label labels => labels.length < n ∧ labels = (List.range labels.length).map root ∧
      root x = root labels.length

/-- What is known of the roots with this left to do. -/
def Task.Fits (n : Nat) (root : Nat → Nat) : Task → Prop
  | .join _ => True
  | .climb x goal => x < n ∧ goal.Fits n root x
  | .list labels => labels.length ≤ n ∧ labels = (List.range labels.length).map root
  | .finished labels => labels = (List.range n).map root

/-- The array holds the pointers of the forest, whose trees are what the edges so far join. -/
structure Machine.Holds (g : Graph) (m : Machine) (f : Forest) : Prop where
  parent_eq : m.parent = f.parent
  size_eq : f.parent.size = g.numNodes
  trees : ∃ done, done ++ m.task.pending = g.edges ∧ TreesOf done f.root
  fits : m.task.Fits g.numNodes f.root

/-- A bound on the steps that are left with `n` vertices. A search takes at most a step for each
    vertex up to the one where it begins. -/
def Goal.stepsLeft (n : Nat) : Goal → Nat
  | .source _ rest => n + rest.length * (2 * n + 1) + n * (n + 1) + 2
  | .target _ _ rest => rest.length * (2 * n + 1) + n * (n + 1) + 2
  | .label labels => (n - (labels.length + 1)) * (n + 1) + 1

/-- A bound on the steps that are left with `n` vertices. -/
def Task.stepsLeft (n : Nat) : Task → Nat
  | .join edges => edges.length * (2 * n + 1) + n * (n + 1) + 2
  | .climb x goal => x + 1 + goal.stepsLeft n
  | .list labels => (n - labels.length) * (n + 1) + 1
  | .finished _ => 0

namespace Machine.Holds

variable {m : Machine} {f f' : Forest} {x : Nat} {goal : Goal} {parent : Array Nat}

/-- The ends of the edges that are left are vertices. -/
theorem ends_lt (h : m.Holds g f) (hn : g.numNodes ≤ Text.maxWord) (he : e ∈ m.task.pending) :
    e.source.toNat < g.numNodes ∧ e.target.toNat < g.numNodes := by
  obtain ⟨done, hdone, _⟩ := h.trees
  apply And.left
  apply Forest.ends_of_mem_edges hn
  rw [← hdone]
  exact List.mem_append_right _ he

/-- A root has been found: what was searched from `x` is `x`. -/
theorem reached (h : Holds g ⟨parent, .climb x goal⟩ f) (hroot : f.root x = x)
    (hn : g.numNodes ≤ Text.maxWord) :
    ∃ m' f', Machine.reached? ⟨parent, .climb x goal⟩ x goal = some m' ∧ m'.Holds g f' ∧
      m'.task.stepsLeft g.numNodes < (Task.climb x goal).stepsLeft g.numNodes := by
  cases goal with
  | source e rest =>
    obtain ⟨_, htarget⟩ := h.ends_lt hn (e := e) List.mem_cons_self
    obtain ⟨rfl, hsize, htrees, hx, hfits⟩ := h
    refine ⟨_, f, rfl, ⟨rfl, hsize, htrees, htarget, hroot.symm.trans hfits, rfl⟩, ?_⟩
    simp only [Task.stepsLeft, Goal.stepsLeft]
    omega
  | target e other rest =>
    obtain ⟨hs, ht⟩ := h.ends_lt hn (e := e) List.mem_cons_self
    obtain ⟨rfl, hsize, ⟨done, hdone, htrees⟩, hx, rfl, htarget⟩ := h
    rw [← hsize] at hs ht
    obtain ⟨f', hlink, hsize', htrees'⟩ := Forest.exists_link htrees hs ht
    rw [← htarget, hroot] at hlink
    refine ⟨_, f', congrArg (Option.map _) hlink,
      ⟨rfl, hsize'.trans hsize, ⟨_, ?_, htrees'⟩, trivial⟩, ?_⟩
    · rw [← hdone, List.append_assoc]
      rfl
    · simp only [Task.stepsLeft, Goal.stepsLeft]
      omega
  | label labels =>
    obtain ⟨rfl, hsize, htrees, hx, hlength, hlabels, hlast⟩ := h
    refine ⟨_, f, rfl, ⟨rfl, hsize, htrees, ?_, ?_⟩, ?_⟩
    · rw [List.length_append, List.length_singleton]
      exact hlength
    · rw [List.length_append, List.length_singleton, List.range_succ, List.map_append, ← hlabels,
        List.map_singleton, ← hlast, hroot]
    · simp only [Task.stepsLeft, Goal.stepsLeft, List.length_append, List.length_singleton]
      omega

/-- From a vertex that is no root the search goes on at a lesser one. -/
theorem climb_up (h : Holds g ⟨parent, .climb x goal⟩ f) (hx : f.parentOf x ≠ x) :
    ∃ f', ∃ grand < x,
      Machine.climb? ⟨parent, .climb x goal⟩ x goal = some ⟨f'.parent, .climb grand goal⟩ ∧
        Holds g ⟨f'.parent, .climb grand goal⟩ f' := by
  obtain ⟨rfl, hsize, htrees, hlt, hfits⟩ := h
  have hxsize : x < f.parent.size := Forest.lt_size_of_parentOf_ne hx
  have hp := f.parentOf_le x
  have hgrand := f.parentOf_le (f.parentOf x)
  have hless : f.parentOf (f.parentOf x) < x := by omega
  have hroot : f.root (f.parentOf (f.parentOf x)) = f.root x := by
    rw [Forest.root_parentOf, Forest.root_parentOf]
  have hkeep : (f.point x _ (Nat.le_of_lt hless)).root = f.root :=
    funext (Forest.root_point hxsize hless hroot)
  refine ⟨f.point x _ (Nat.le_of_lt hless), _, hless, ?_, rfl, ?_, ?_, ?_⟩
  · unfold Machine.climb?
    rw [Forest.getElem?_parent hxsize]
    show (if f.parentOf x = x then _ else _) = _
    rw [if_neg hx, Forest.getElem?_parent (by omega)]
    show (write? f.parent x _).bind _ = _
    rw [Forest.write?_parent (Nat.le_of_lt hless) hxsize]
    rfl
  · rw [Forest.size_point, hsize]
  · rw [hkeep]
    exact htrees
  · rw [hkeep]
    refine ⟨Nat.lt_trans hless hlt, ?_⟩
    cases goal with
    | source e rest => exact hroot.trans hfits
    | target e other rest => exact ⟨hfits.1, hroot.trans hfits.2⟩
    | label labels => exact ⟨hfits.1, hfits.2.1, hroot.trans hfits.2.2⟩

/-- At a root the search is over. -/
theorem climb_root (h : Holds g ⟨parent, .climb x goal⟩ f) (hx : f.parentOf x = x) :
    Machine.climb? ⟨parent, .climb x goal⟩ x goal =
      Machine.reached? ⟨parent, .climb x goal⟩ x goal := by
  obtain ⟨rfl, hsize, _, hlt, _⟩ := h
  have hself := Forest.getElem?_parent (x := x) (by rw [hsize]; exact hlt)
  unfold Machine.climb?
  rw [hself]
  exact if_pos hx

/-- **A step** makes no access beyond the array, and leaves fewer steps to do. -/
theorem step (h : m.Holds g f) (hn : g.numNodes ≤ Text.maxWord) :
    ∃ m' f', m.step? g.numNodes = some m' ∧ m'.Holds g f' ∧
      m'.task.stepsLeft g.numNodes ≤ m.task.stepsLeft g.numNodes - 1 := by
  obtain ⟨parent, task⟩ := m
  cases task with
  | join edges =>
    cases edges with
    | nil =>
      obtain ⟨rfl, hsize, htrees, _⟩ := h
      refine ⟨_, f, rfl, ⟨rfl, hsize, htrees, Nat.zero_le _, rfl⟩, ?_⟩
      simp only [Task.stepsLeft, List.length_nil, Nat.sub_zero]
      omega
    | cons e rest =>
      obtain ⟨hsource, _⟩ := h.ends_lt hn (e := e) List.mem_cons_self
      obtain ⟨rfl, hsize, htrees, _⟩ := h
      refine ⟨_, f, rfl, ⟨rfl, hsize, htrees, hsource, rfl⟩, ?_⟩
      simp only [Task.stepsLeft, Goal.stepsLeft, List.length_cons, Nat.succ_mul]
      omega
  | climb x goal =>
    by_cases hx : f.parentOf x = x
    · obtain ⟨m', f', hm, hholds, hless⟩ := h.reached (Forest.root_of_parentOf_eq hx) hn
      exact ⟨m', f', (h.climb_root hx).trans hm, hholds, Nat.le_sub_one_of_lt hless⟩
    · obtain ⟨f', grand, hless, hm, hholds⟩ := h.climb_up hx
      refine ⟨_, f', hm, hholds, ?_⟩
      simp only [Task.stepsLeft]
      omega
  | list labels =>
    obtain ⟨rfl, hsize, htrees, hlength, hlabels⟩ := h
    unfold Machine.step?
    dsimp only
    split
    next hmore =>
      refine ⟨_, f, rfl, ⟨rfl, hsize, htrees, hmore, hmore, hlabels, rfl⟩, ?_⟩
      obtain ⟨k, hk⟩ : ∃ k, g.numNodes - labels.length = k + 1 :=
        ⟨g.numNodes - labels.length - 1, by omega⟩
      have hk' : g.numNodes - (labels.length + 1) = k := by omega
      simp only [Task.stepsLeft, Goal.stepsLeft, hk, hk', Nat.succ_mul]
      omega
    next hall =>
      refine ⟨_, f, rfl, ⟨rfl, hsize, htrees, ?_⟩, Nat.zero_le _⟩
      have heq : labels.length = g.numNodes := Nat.le_antisymm hlength (Nat.le_of_not_lt hall)
      rw [heq] at hlabels
      exact hlabels
  | finished labels => exact ⟨_, f, rfl, h, Nat.zero_le _⟩

/-- In the middle of a run the pointers are those of a forest. -/
theorem sound (h : m.Holds g f) : m.Sound g := by
  refine ⟨?_, fun i p hp => ?_, fun x goal htask hx => ?_, ?_⟩
  · rw [h.parent_eq, h.size_eq]
  · rw [h.parent_eq] at hp
    rw [← Forest.parentOf_of_getElem? hp]
    exact f.parentOf_le i
  · obtain ⟨parent, task⟩ := m
    subst htask
    have hparent : f.parentOf x ≠ x := by
      intro heq
      have hlt : x < f.parent.size := by
        rw [h.size_eq]
        exact h.fits.1
      have hself := Forest.getElem?_parent hlt
      rw [heq, ← h.parent_eq] at hself
      exact hx hself
    obtain ⟨f', grand, hless, hstep, _⟩ := h.climb_up hparent
    exact ⟨f'.parent, grand, hless, hstep⟩
  · obtain ⟨done, hdone, htrees⟩ := h.trees
    refine ⟨done, hdone, fun v hv r => ?_⟩
    rw [h.parent_eq, Forest.ends_iff (by rw [h.size_eq]; exact hv)]
    constructor
    · rintro rfl
      refine ⟨(htrees _ _).1 (f.root_root v), fun w hw => ?_⟩
      rw [← (htrees w v).2 hw]
      exact f.root_le w
    · rintro ⟨hjoined, hleast⟩
      apply Nat.le_antisymm
      · exact hleast _ ((htrees _ _).1 (f.root_root v))
      · rw [← (htrees r v).2 hjoined]
        exact f.root_le r

/-- The start: no edge has been joined, and each vertex is its own root. -/
theorem start (g : Graph) : (Machine.start g).Holds g (.singletons g.numNodes) := by
  refine ⟨rfl, Array.size_range, ⟨[], rfl, fun u v => ?_⟩, trivial⟩
  rw [Forest.root_singletons, Forest.root_singletons]
  constructor
  · rintro rfl
    exact .stay
  · intro h
    exact h.eq_of_forall (f := id) fun e he => absurd he List.not_mem_nil

/-- **Every run** goes on, and each step leaves fewer steps to do. -/
theorem after (hn : g.numNodes ≤ Text.maxWord) (k : Nat) :
    ∃ m f, Machine.after? g k = some m ∧ m.Holds g f ∧
      m.task.stepsLeft g.numNodes ≤ (Task.join g.edges).stepsLeft g.numNodes - k := by
  induction k with
  | zero => exact ⟨_, _, rfl, start g, Nat.le_refl _⟩
  | succ k ih =>
    obtain ⟨m, f, hm, hholds, hleft⟩ := ih
    obtain ⟨m', f', hm', hholds', hless⟩ := hholds.step hn
    refine ⟨m', f', ?_, hholds', by omega⟩
    rw [Machine.after?, hm]
    exact hm'

/-- When nothing is left to do, the labels are the roots of the forest of all edges. -/
theorem finished_eq (h : m.Holds g f) (hn : g.numNodes ≤ Text.maxWord)
    (hleft : m.task.stepsLeft g.numNodes = 0) : m.task = .finished (weakComponents g) := by
  obtain ⟨parent, task⟩ := m
  cases task with
  | join edges => exact absurd hleft (Nat.succ_ne_zero _)
  | climb x goal =>
    simp only [Task.stepsLeft] at hleft
    omega
  | list labels => exact absurd hleft (Nat.succ_ne_zero _)
  | finished labels =>
    obtain ⟨rfl, hsize, ⟨done, hdone, htrees⟩, hlabels⟩ := h
    obtain rfl : done = g.edges := by
      rw [← hdone]
      exact (List.append_nil done).symm
    have hroot : f.root = (Forest.ofEdges g.numNodes g.edges).root := by
      funext v
      have hsame : ∀ u, f.root u = f.root v ↔
          (Forest.ofEdges g.numNodes g.edges).root u =
            (Forest.ofEdges g.numNodes g.edges).root v := by
        intro u
        rw [htrees, joined_edges_iff hn, Forest.root_ofEdges_eq_iff hn]
      -- Each of the two roots is the root of the other, hence not greater.
      apply Nat.le_antisymm
      · rw [← (hsame _).2 (Forest.root_root _ v)]
        exact f.root_le _
      · rw [← (hsame _).1 (Forest.root_root _ v)]
        exact Forest.root_le _ _
    rw [hlabels, hroot, weakComponents, Forest.roots_eq_map]

end Machine.Holds

/-! ### Whole runs -/

/-- **Components by single accesses.** In a graph with no more vertices than words can tell apart, no
    access goes beyond the array, at any time no vertex points to a greater one, a search goes on at
    lesser vertices only, and pointers end at the least of the vertices that the edges so far join.
    After a number of steps that edges and vertices bound, the run is over; its labels are the
    components of the graph, which give each vertex the least vertex that is linked to it. -/
theorem weakComponents_by_accesses (g : Graph) (hn : g.numNodes ≤ Text.maxWord) :
    (∀ k, ∃ m, Machine.after? g k = some m ∧ m.Sound g) ∧
    (∀ k, g.edges.length * (2 * g.numNodes + 1) + g.numNodes * (g.numNodes + 1) + 2 ≤ k →
      ∃ parent, Machine.after? g k = some ⟨parent, .finished (weakComponents g)⟩) ∧
    (weakComponents g).length = g.numNodes ∧
    ∀ v < g.numNodes, ∃ u, (weakComponents g)[v]? = some u ∧ g.Linked u v ∧
      ∀ w, g.Linked w v → u ≤ w := by
  refine ⟨fun k => ?_, fun k hk => ?_, length_weakComponents g,
    fun v hv => getElem?_weakComponents hn hv⟩
  · obtain ⟨m, f, hm, hholds, _⟩ := Machine.Holds.after hn k
    exact ⟨m, hm, hholds.sound⟩
  · obtain ⟨m, f, hm, hholds, hleft⟩ := Machine.Holds.after hn k
    have hzero : m.task.stepsLeft g.numNodes = 0 := by
      rw [Task.stepsLeft, Nat.sub_eq_zero_of_le hk] at hleft
      exact Nat.le_zero.1 hleft
    refine ⟨m.parent, ?_⟩
    rw [hm, ← hholds.finished_eq hn hzero]

/-! ### Late links -/

/-- Vertices 1 and then 0 are joined to the tree of vertex 3 when it has other vertices already, so
    that searches from vertex 3 move pointers. Vertex 4 stays alone. -/
def lateLinks : Graph where
  offsets := #[0, 0, 0, 1, 3, 3]
  targets := #[3, 1, 0]
  weights := #[5, 6, 7]
  first_offset := rfl
  last_offset := rfl
  sorted_offsets := by decide
  size_weights := rfl
  target_lt := by simp

/-- The general theorem at late links. After the ninth step vertex 3 has been pointed to its
    grandparent, vertex 1, and the search for its root goes on there. -/
theorem weakComponents_by_accesses_lateLinks :
    lateLinks.numNodes ≤ Text.maxWord ∧
      Machine.after? lateLinks 9 = some ⟨#[0, 1, 1, 1, 4], .climb 1 (.source ⟨3, 0, 7⟩ [])⟩ ∧
      Machine.Sound lateLinks ⟨#[0, 1, 1, 1, 4], .climb 1 (.source ⟨3, 0, 7⟩ [])⟩ ∧
      (∃ parent, Machine.after? lateLinks 65 = some ⟨parent, .finished [0, 0, 0, 0, 4]⟩) ∧
      lateLinks.Linked 0 2 ∧ ∀ w, lateLinks.Linked w 4 → 4 ≤ w := by
  have hn : lateLinks.numNodes ≤ Text.maxWord := by decide
  have hninth : Machine.after? lateLinks 9 =
      some ⟨#[0, 1, 1, 1, 4], .climb 1 (.source ⟨3, 0, 7⟩ [])⟩ := by decide +kernel
  have hroots : weakComponents lateLinks = [0, 0, 0, 0, 4] := by decide +kernel
  obtain ⟨hsound, hfinished, _, hleast⟩ := weakComponents_by_accesses lateLinks hn
  rw [hroots] at hfinished hleast
  refine ⟨hn, hninth, ?_, hfinished 65 (by decide +kernel), ?_, ?_⟩
  · obtain ⟨m, hm, hm'⟩ := hsound 9
    rw [hninth] at hm
    cases hm
    exact hm'
  · obtain ⟨u, hu, hlinked, _⟩ := hleast 2 (by decide)
    cases hu
    exact hlinked
  · obtain ⟨u, hu, _, hmin⟩ := hleast 4 (by decide)
    cases hu
    exact hmin

end SparseGraph.Component
