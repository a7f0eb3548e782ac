import SparseGraph.Component.UnionFind
import SparseGraph.Graph.Walk
import SparseGraph.Proofs.Graph.Arcs

namespace SparseGraph.Component

/-!
# Roots of a forest

A forest is seen here as the root of each vertex. Finding a root moves pointers but no root, and
joining two trees moves the vertices of one of them to the root of the other.

* `Forest.root` — where the pointers of a vertex lead;
* `Forest.root_point`, `Forest.root_point_root` — pointing a vertex to one of its own tree keeps all
  roots, and pointing a root to another root joins their trees;
* `Forest.find_spec`, `Forest.root_union` — what finding and joining do to the roots;
* `Forest.root_ofEdges_eq_iff` — the trees of a graph are what its edges link;
* `getElem?_weakComponents` — the root of a vertex is the least one that it is linked to.
-/

namespace Forest

/-! ### Roots -/

/-- The vertex at which the pointers of `x` end. -/
def root (f : Forest) (x : Nat) : Nat :=
  if _h : f.parentOf x = x then x else f.root (f.parentOf x)
termination_by x
decreasing_by
  have := f.parentOf_le x
  omega

variable {f : Forest} {i j x y z : Nat}

theorem root_of_parentOf_eq (h : f.parentOf x = x) : f.root x = x := by
  rw [root, dif_pos h]

theorem root_parentOf (f : Forest) (x : Nat) : f.root (f.parentOf x) = f.root x := by
  by_cases h : f.parentOf x = x
  · rw [h]
  · conv_rhs => rw [root, dif_neg h]

/-- A root points to itself. -/
theorem parentOf_root (f : Forest) (x : Nat) : f.parentOf (f.root x) = f.root x := by
  fun_induction root f x with
  | case1 x h => exact h
  | case2 x h ih => exact ih

/-- **A root is the least vertex of its tree.** -/
theorem root_le (f : Forest) (x : Nat) : f.root x ≤ x := by
  fun_induction root f x with
  | case1 x h => exact Nat.le_refl x
  | case2 x h ih => exact Nat.le_trans ih (f.parentOf_le x)

theorem root_root (f : Forest) (x : Nat) : f.root (f.root x) = f.root x :=
  root_of_parentOf_eq (f.parentOf_root x)

/-! ### Moving a pointer -/

theorem size_point (f : Forest) (i j : Nat) (le : j ≤ i) :
    (f.point i j le).parent.size = f.parent.size :=
  Array.size_setIfInBounds

theorem parentOf_point_self (le : j ≤ i) (hi : i < f.parent.size) :
    (f.point i j le).parentOf i = j := by
  show (f.parent.setIfInBounds i j).getD i i = j
  rw [Array.getD_eq_getD_getElem?, Array.getElem?_setIfInBounds_self_of_lt hi]
  rfl

theorem parentOf_point_of_ne (f : Forest) (le : j ≤ i) (h : x ≠ i) :
    (f.point i j le).parentOf x = f.parentOf x := by
  show (f.parent.setIfInBounds i j).getD x x = f.parent.getD x x
  rw [Array.getD_eq_getD_getElem?, Array.getElem?_setIfInBounds_ne (Ne.symm h),
    Array.getD_eq_getD_getElem?]

/-- Beyond the vertices every number is a root. -/
theorem lt_size_of_parentOf_ne (h : f.parentOf x ≠ x) : x < f.parent.size := by
  by_contra hx
  apply h
  show f.parent.getD x x = x
  rw [Array.getD_eq_getD_getElem?, Array.getElem?_eq_none (Nat.le_of_not_lt hx)]
  rfl

/-- **Pointing within a tree** keeps all roots. -/
theorem root_point (hi : i < f.parent.size) (hlt : j < i) (hroot : f.root j = f.root i) (x : Nat) :
    (f.point i j (Nat.le_of_lt hlt)).root x = f.root x := by
  induction x using Nat.strongRecOn with
  | _ x ih =>
    by_cases hx : x = i
    · subst hx
      have hself := parentOf_point_self (Nat.le_of_lt hlt) hi
      rw [← root_parentOf, hself, ih j hlt, hroot]
    · have hsame := parentOf_point_of_ne f (Nat.le_of_lt hlt) hx
      by_cases hend : f.parentOf x = x
      · rw [root_of_parentOf_eq (hsame.trans hend), root_of_parentOf_eq hend]
      · have hless := Nat.lt_of_le_of_ne (f.parentOf_le x) hend
        rw [← root_parentOf, hsame, ih _ hless, root_parentOf]

/-- **Pointing a root to another root** joins their trees. -/
theorem root_point_root (hi : i < f.parent.size) (hlt : j < i) (hroot : f.parentOf i = i)
    (hj : f.parentOf j = j) (x : Nat) :
    (f.point i j (Nat.le_of_lt hlt)).root x = if f.root x = i then j else f.root x := by
  induction x using Nat.strongRecOn with
  | _ x ih =>
    by_cases hx : x = i
    · subst hx
      have hself := parentOf_point_self (Nat.le_of_lt hlt) hi
      rw [← root_parentOf, hself, ih j hlt, root_of_parentOf_eq hj, root_of_parentOf_eq hroot,
        if_pos rfl, if_neg (Nat.ne_of_lt hlt)]
    · have hsame := parentOf_point_of_ne f (Nat.le_of_lt hlt) hx
      by_cases hend : f.parentOf x = x
      · rw [root_of_parentOf_eq (hsame.trans hend), root_of_parentOf_eq hend, if_neg hx]
      · have hless := Nat.lt_of_le_of_ne (f.parentOf_le x) hend
        rw [← root_parentOf, hsame, ih _ hless, root_parentOf]

/-! ### Finding and joining -/

/-- **Finding** a root leaves all roots where they are. -/
theorem find_spec (f : Forest) (x : Nat) :
    (f.find x).2 = f.root x ∧ (f.find x).1.parent.size = f.parent.size ∧
      ∀ y, (f.find x).1.root y = f.root y := by
  fun_induction find f x with
  | case1 f x h => exact ⟨(root_of_parentOf_eq h).symm, rfl, fun _ => rfl⟩
  | case2 f x h grand ih =>
    obtain ⟨hfound, hsize, hroots⟩ := ih
    -- The grandparent stands in the same tree, so pointing to it keeps all roots.
    have hlt : grand < x := by
      have h₁ := f.parentOf_le x
      have h₂ := f.parentOf_le (f.parentOf x)
      omega
    have hgrand : f.root grand = f.root x := by
      rw [root_parentOf, root_parentOf]
    have hkeep := root_point (lt_size_of_parentOf_ne h) hlt hgrand
    refine ⟨?_, hsize.trans (size_point _ _ _ _), fun y => ?_⟩
    · rw [hfound, hkeep, hgrand]
    · rw [hroots, hkeep]

theorem size_union (f : Forest) (x y : Nat) : (f.union x y).parent.size = f.parent.size := by
  obtain ⟨_, hsize₁, _⟩ := f.find_spec x
  obtain ⟨_, hsize₂, _⟩ := (f.find x).1.find_spec y
  unfold union
  dsimp only
  split
  next => rw [size_point, hsize₂, hsize₁]
  next =>
    split
    next => rw [size_point, hsize₂, hsize₁]
    next => rw [hsize₂, hsize₁]

/-- **Joining** two trees gives both the less of their roots, and the others keep theirs. -/
theorem root_union (hx : x < f.parent.size) (hy : y < f.parent.size) (z : Nat) :
    (f.union x y).root z =
      if f.root z = f.root x ∨ f.root z = f.root y then min (f.root x) (f.root y)
      else f.root z := by
  obtain ⟨ha, hsize₁, hroots₁⟩ := f.find_spec x
  obtain ⟨hb, hsize₂, hroots₂⟩ := (f.find x).1.find_spec y
  rw [hroots₁] at hb
  have hroots : ∀ w, ((f.find x).1.find y).1.root w = f.root w := by
    intro w
    rw [hroots₂, hroots₁]
  have hsize : ((f.find x).1.find y).1.parent.size = f.parent.size := hsize₂.trans hsize₁
  -- The roots of `f` are still roots after both searches.
  have hend : ∀ w, ((f.find x).1.find y).1.parentOf (f.root w) = f.root w := by
    intro w
    rw [← hroots w]
    exact parentOf_root _ w
  have hxlt := Nat.lt_of_le_of_lt (f.root_le x) hx
  have hylt := Nat.lt_of_le_of_lt (f.root_le y) hy
  unfold union
  simp only [ha, hb]
  split
  next hlt =>
    rw [root_point_root (by rw [hsize]; exact hylt) hlt (hend y) (hend x), hroots,
      Nat.min_eq_left (Nat.le_of_lt hlt)]
    split <;> split <;> omega
  next hge =>
    split
    next hlt =>
      rw [root_point_root (by rw [hsize]; exact hxlt) hlt (hend x) (hend y), hroots,
        Nat.min_eq_right (Nat.le_of_lt hlt)]
      split <;> split <;> omega
    next hle =>
      rw [hroots]
      split <;> omega

/-- The roots of several vertices. -/
theorem roots_eq_map (f : Forest) (xs : List Nat) : f.roots xs = xs.map f.root := by
  induction xs generalizing f with
  | nil => rfl
  | cons x xs ih =>
    obtain ⟨hfound, _, hroots⟩ := f.find_spec x
    show (f.find x).2 :: (f.find x).1.roots xs = _
    rw [ih, hfound, List.map_cons, funext hroots]

/-! ### Joining the ends of edges -/

theorem root_singletons (n x : Nat) : (singletons n).root x = x := by
  apply root_of_parentOf_eq
  show (Array.range n).getD x x = x
  rw [Array.getD_eq_getD_getElem?, Array.getElem?_range]
  split <;> rfl

section
variable {g : Graph} {edges : List Edge}

/-- Joining never parts what stood in one tree. -/
theorem root_union_congr (hx : x < f.parent.size) (hy : y < f.parent.size) {u v : Nat}
    (h : f.root u = f.root v) : (f.union x y).root u = (f.union x y).root v := by
  rw [root_union hx hy, root_union hx hy, h]

/-- **The ends of every edge stand in one tree** once they have been joined, and so does what stood
    in one tree before. -/
theorem root_foldl_union (hedges : ∀ e ∈ edges, e.source.toNat < f.parent.size ∧
      e.target.toNat < f.parent.size) :
    let after := edges.foldl (fun f e => f.union e.source.toNat e.target.toNat) f
    (∀ u v, f.root u = f.root v → after.root u = after.root v) ∧
      ∀ e ∈ edges, after.root e.source.toNat = after.root e.target.toNat := by
  induction edges generalizing f with
  | nil => exact ⟨fun _ _ h => h, fun e he => absurd he List.not_mem_nil⟩
  | cons e edges ih =>
    obtain ⟨hsource, htarget⟩ := hedges e List.mem_cons_self
    have hrest : ∀ d ∈ edges,
        d.source.toNat < (f.union e.source.toNat e.target.toNat).parent.size ∧
          d.target.toNat < (f.union e.source.toNat e.target.toNat).parent.size := by
      intro d hd
      rw [size_union]
      exact hedges d (List.mem_cons_of_mem e hd)
    obtain ⟨hkept, hjoined⟩ := ih hrest
    refine ⟨fun u v h => hkept u v (root_union_congr hsource htarget h), fun d hd => ?_⟩
    rcases List.mem_cons.1 hd with rfl | hd
    · apply hkept
      rw [root_union hsource htarget, root_union hsource htarget, if_pos (.inl rfl),
        if_pos (.inr rfl)]
    · exact hjoined d hd

/-- **Trees do not reach beyond the edges:** what the edges of a list link stays linked to its
    root. -/
theorem linked_root_foldl_union (hedges : ∀ e ∈ edges, e.source.toNat < f.parent.size ∧
      e.target.toNat < f.parent.size)
    (hlinked : ∀ e ∈ edges, g.Linked e.source.toNat e.target.toNat)
    (h : ∀ u, g.Linked (f.root u) u) (u : Nat) :
    g.Linked ((edges.foldl (fun f e => f.union e.source.toNat e.target.toNat) f).root u) u := by
  induction edges generalizing f with
  | nil => exact h u
  | cons e edges ih =>
    obtain ⟨hsource, htarget⟩ := hedges e List.mem_cons_self
    have hends := hlinked e List.mem_cons_self
    rw [List.foldl_cons]
    refine ih (fun d hd => ?_) (fun d hd => hlinked d (List.mem_cons_of_mem e hd)) fun v => ?_
    · rw [size_union]
      exact hedges d (List.mem_cons_of_mem e hd)
    · rw [root_union hsource htarget]
      split
      next hroot =>
        -- Both roots are linked through the edge, and one of them is the root of `v`.
        have hboth : g.Linked (f.root e.source.toNat) (f.root e.target.toNat) :=
          ((h _).trans hends).trans (h _).symm
        have hless : ∀ r, r = f.root e.source.toNat ∨ r = f.root e.target.toNat →
            g.Linked (min (f.root e.source.toNat) (f.root e.target.toNat)) r := by
          intro r hr
          rcases Nat.le_total (f.root e.source.toNat) (f.root e.target.toNat) with hle | hle
          · rw [Nat.min_eq_left hle]
            rcases hr with rfl | rfl
            · exact .stay
            · exact hboth
          · rw [Nat.min_eq_right hle]
            rcases hr with rfl | rfl
            · exact hboth.symm
            · exact .stay
        exact (hless _ hroot).trans (h v)
      next => exact h v

end

/-! ### The forest of a graph -/

variable {g : Graph} {u v : Nat}

/-- The ends of the edges of a graph are vertices, and linked. -/
theorem ends_of_mem_edges (hn : g.numNodes ≤ Text.maxWord) {e : Edge} (he : e ∈ g.edges) :
    (e.source.toNat < g.numNodes ∧ e.target.toNat < g.numNodes) ∧
      g.Linked e.source.toNat e.target.toNat := by
  obtain ⟨v, hv, a, ha, rfl⟩ := (Graph.mem_edges_iff hn).1 he
  rw [Arc.source_edgeFrom, Graph.toNat_ofNat_of_lt hn hv]
  exact ⟨⟨hv, Graph.target_lt_of_mem_arcs ha⟩, .along .stay ha⟩

/-- **The trees of a graph** are what its edges link. -/
theorem root_ofEdges_eq_iff (hn : g.numNodes ≤ Text.maxWord) :
    (ofEdges g.numNodes g.edges).root u = (ofEdges g.numNodes g.edges).root v ↔
      g.Linked u v := by
  have hends : ∀ e ∈ g.edges, e.source.toNat < (singletons g.numNodes).parent.size ∧
      e.target.toNat < (singletons g.numNodes).parent.size := by
    intro e he
    have hsize : (singletons g.numNodes).parent.size = g.numNodes := Array.size_range
    rw [hsize]
    exact (ends_of_mem_edges hn he).1
  have hroot : ∀ w, g.Linked ((ofEdges g.numNodes g.edges).root w) w := by
    refine linked_root_foldl_union hends (fun e he => (ends_of_mem_edges hn he).2) fun w => ?_
    rw [root_singletons]
    exact .stay
  constructor
  · intro h
    have hu := hroot u
    rw [h] at hu
    exact hu.symm.trans (hroot v)
  · intro h
    have hjoined := (root_foldl_union hends).2
    have harc : ∀ {w : Nat} {a : Arc}, a ∈ g.arcs w →
        (ofEdges g.numNodes g.edges).root w =
          (ofEdges g.numNodes g.edges).root a.target.toNat := by
      intro w a ha
      have hw := Graph.lt_of_mem_arcs ha
      have hmem : a.edgeFrom (UInt32.ofNat w) ∈ g.edges :=
        (Graph.mem_edges_iff hn).2 ⟨w, hw, a, ha, rfl⟩
      have hedge := hjoined _ hmem
      rw [Arc.source_edgeFrom, Graph.toNat_ofNat_of_lt hn hw] at hedge
      exact hedge
    induction h with
    | stay => rfl
    | along _ ha ih => exact ih.trans (harc ha)
    | against _ ha ih => exact ih.trans (harc ha).symm

end Forest

/-- **Roots are least.** Each vertex gets the least vertex that it is linked to. -/
theorem getElem?_weakComponents {g : Graph} (hn : g.numNodes ≤ Text.maxWord) {v : Nat}
    (hv : v < g.numNodes) :
    ∃ u, (weakComponents g)[v]? = some u ∧ g.Linked u v ∧ ∀ w, g.Linked w v → u ≤ w := by
  refine ⟨(Forest.ofEdges g.numNodes g.edges).root v, ?_, ?_, fun w hw => ?_⟩
  · unfold weakComponents
    rw [Forest.roots_eq_map, List.getElem?_map, List.getElem?_range hv]
    rfl
  · exact (Forest.root_ofEdges_eq_iff hn).1 (Forest.root_root _ v)
  · rw [← (Forest.root_ofEdges_eq_iff hn).2 hw]
    exact Forest.root_le _ w

theorem length_weakComponents (g : Graph) : (weakComponents g).length = g.numNodes := by
  unfold weakComponents
  rw [Forest.roots_eq_map, List.length_map, List.length_range]

end SparseGraph.Component
