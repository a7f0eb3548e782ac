import SparseGraph.Proofs.Json.LegibleValues
import SparseGraph.Proofs.Report.Records

namespace SparseGraph.Report

open Json (Keeps Node Number Value Writes exists_writes_float isSome_readBack?_double_iff
  isSome_readBack?_single_iff namedNodes)
open Text (maxLong maxWord)

/-!
# Records that can be read

A floating point value that is not finite is written as `null`. A ratio is read of it, as none, and
so is a parameter, but not the time, the greatest rank or the sum of ranks: a record is read if and
only if these are finite and no parameter is too deep.

* `Record.Sized` — records whose counts are those of their types;
* `Record.Legible` — the records that can be read, though not always as themselves;
* `exists_keeps_derived`, `exists_writes_params`, `exists_writes_summary` — each part of a record;
* `RankSummary.isFinite_ofRanks_iff` — the summary of ranks is finite if all ranks are;
* `Record.isSome_read?_render_iff` — the records that are read are the legible ones.
-/

/-- Summaries whose counts fit into their words. -/
def Summary.Sized : Summary → Prop
  | .distances s => s.maxDistance ≤ maxWord ∧ s.reachable ≤ maxLong ∧ s.numNodes ≤ maxLong
  | .components s => s.components ≤ maxLong ∧ s.largest ≤ maxLong
  | .ranks _ => True

/-- Records whose counts, and the integers of their parameters, fit into their words. -/
structure Record.Sized (r : Record) : Prop where
  params : ∀ p ∈ r.params.entries, ∃ depth, p.2.Legible depth
  numNodes : r.numNodes ≤ maxLong
  numEdges : r.numEdges ≤ maxLong
  threads : r.threads ≤ maxLong
  counters : ∀ c ∈ r.counters.entries, c.2 ≤ maxLong
  summary : r.summary.Sized

/-- Both numbers are finite. -/
def RankSummary.isFinite (s : RankSummary) : Bool :=
  s.maxRank.isFinite && s.rankSum.isFinite

/-- Ranks are the only floating point values of a summary. -/
def Summary.isFinite : Summary → Bool
  | .distances _ | .components _ => true
  | .ranks s => s.isFinite

/-- Records that can be read, though not always as themselves: parameters are not too deep, and the
    floating point values that may not be missing are finite. -/
structure Record.Legible (r : Record) : Prop where
  params : ∀ p ∈ r.params.entries, p.2.Legible levelsBelow
  elapsedSeconds : r.elapsedSeconds.isFinite = true
  summary : r.summary.isFinite = true

theorem Record.legible_iff {r : Record} :
    r.Legible ↔ (∀ p ∈ r.params.entries, p.2.Legible levelsBelow) ∧
      r.elapsedSeconds.isFinite = true ∧ r.summary.isFinite = true :=
  ⟨fun h => ⟨h.params, h.elapsedSeconds, h.summary⟩, fun h => ⟨h.1, h.2.1, h.2.2⟩⟩

variable {r : Record} {s : Summary}

/-! ### Parts of a record -/

/-- **A double** is read as a number if it is finite, and is `null` if not. -/
theorem keeps_double_or_writes_null (x : Float) :
    (x.isFinite = true ∧ ∃ n, Keeps numberOf? (.number (.double x)) n) ∨
      (x.isFinite = false ∧ Writes (Value.number (.double x)).render .null) := by
  cases hx : x.isFinite with
  | true =>
    obtain ⟨n, hn⟩ := Option.isSome_iff_exists.1 ((isSome_readBack?_double_iff x).2 hx)
    obtain ⟨t, hwrites, ht⟩ := Json.exists_writes_render hn
    exact .inl ⟨rfl, n, .number t, hwrites, ht⟩
  | false =>
    refine .inr ⟨rfl, ?_⟩
    show Writes (Number.double x).render .null
    rw [@Number.render_of_not_isFinite (.double x) hx]
    exact Json.writes_null

/-- **A double** is read as a number if and only if it is finite. -/
theorem exists_writes_double (x : Float) :
    ∃ node, Writes (Value.number (.double x)).render node ∧
      (numberOf? node).isSome = x.isFinite := by
  rcases keeps_double_or_writes_null x with ⟨hx, n, node, hwrites, hn⟩ | ⟨hx, hwrites⟩
  · exact ⟨node, hwrites, by rw [hn, hx]; rfl⟩
  · exact ⟨.null, hwrites, hx.symm⟩

/-- **A ratio** is read in any case: of a number that is not finite, none is read. -/
theorem exists_writes_ratio (ratio : Option Float) :
    ∃ node read, Writes (ratioValue ratio).render node ∧ ratioOf? (some node) = some read := by
  cases ratio with
  | none => exact ⟨.null, none, Json.writes_null, rfl⟩
  | some x =>
    rcases keeps_double_or_writes_null x with ⟨_, n, node, hwrites, hn⟩ | ⟨_, hwrites⟩
    · refine ⟨node, some n.toDouble, hwrites, ?_⟩
      cases node with
      | number t =>
        show (numberOf? (.number t)).map _ = _
        rw [hn]
        rfl
      | null | bool | text | array | object => cases hn
    · exact ⟨.null, none, hwrites, rfl⟩

/-- **Ratios** are read in any case. -/
theorem exists_keeps_derived (d : Derived) : ∃ read, Keeps derivedOf? d.toJson read := by
  obtain ⟨n₁, r₁, hw₁, hr₁⟩ := exists_writes_ratio d.ipc
  obtain ⟨n₂, r₂, hw₂, hr₂⟩ := exists_writes_ratio d.mlp
  obtain ⟨n₃, r₃, hw₃, hr₃⟩ := exists_writes_ratio d.memoryStall
  obtain ⟨n₄, r₄, hw₄, hr₄⟩ := exists_writes_ratio d.memoryBound
  have hfields : Keeps (fields? ratioNames) d.toJson ([n₁, n₂, n₃, n₄].map some) :=
    keeps_fields (by decide) rfl (.cons hw₁ (.cons hw₂ (.cons hw₃ (.cons hw₄ .nil))))
  obtain ⟨node, hwrites, hnode⟩ := hfields
  refine ⟨⟨r₁, r₂, r₃, r₄⟩, node, hwrites, ?_⟩
  unfold derivedOf?
  rw [hnode]
  simp [hr₁, hr₂, hr₃, hr₄]

/-- **Parameters** are read if and only if none is too deep. -/
theorem exists_writes_params {m : NameMap Value}
    (h : ∀ p ∈ m.entries, ∃ depth, p.2.Legible depth) :
    ∃ node, Writes (Value.object m.entries).render node ∧
      ((paramsOf? node).isSome = true ↔ ∀ p ∈ m.entries, p.2.Legible levelsBelow) := by
  have hparam : ∀ p ∈ m.entries, ∃ node, Writes p.2.render node ∧
      ((Value.ofNode? levelsBelow node).isSome = true ↔ p.2.Legible levelsBelow) := by
    intro p hp
    obtain ⟨depth, hdepth⟩ := h p hp
    obtain ⟨node, hwrites, hnode⟩ := hdepth.exists_writes
    exact ⟨node, hwrites, hnode levelsBelow⟩
  obtain ⟨nodes, hwrites, hnodes⟩ := Json.exists_writes_object id hparam
  rw [List.map_id] at hwrites
  refine ⟨_, hwrites, ?_⟩
  rw [← Json.isSome_membersOfNodes?_iff hnodes]
  show (Json.membersOfNodes? levelsBelow (namedNodes nodes) >>= fun ms =>
    some (NameMap.ofList ms)).isSome = true ↔ _
  cases Json.membersOfNodes? levelsBelow (namedNodes nodes) with
  | none => exact Iff.rfl
  | some members => exact iff_of_true rfl rfl

/-! ### Summaries -/

/-- A summary of ranks is read of two numbers. -/
theorem isSome_ofFields?_ranks (v w : Value) :
    (Summary.ofFields? "pr" (.inl [("max_rank", v), ("rank_sum", w)])).isSome =
      ((numberOfValue? v).isSome && (numberOfValue? w).isSome) := by
  cases hv : numberOfValue? v with
  | none => simp [Summary.ofFields?, summaryFields?, field?, hv]
  | some m =>
    cases hw : numberOfValue? w with
    | none => simp [Summary.ofFields?, summaryFields?, field?, hv, hw]
    | some s => simp [Summary.ofFields?, summaryFields?, field?, hv, hw]

theorem isSome_numberOfValue?_iff (v : Value) :
    (numberOfValue? v).isSome = true ↔ ∃ m, v = .number m := by
  cases v with
  | number m => exact iff_of_true rfl ⟨m, rfl⟩
  | null | bool | text | array | object => exact iff_of_false Bool.false_ne_true (by simp)

/-- **A summary of ranks** is read if and only if both its numbers are finite. -/
theorem exists_writes_ranks (s : RankSummary) :
    ∃ node, Writes (Summary.ranks s).toJson.render node ∧
      (Summary.read? node).isSome = s.isFinite := by
  obtain ⟨_, v, hwv, hv, hmax⟩ := exists_writes_float (isSome_readBack?_single_iff s.maxRank)
  obtain ⟨_, w, hww, hw, hsum⟩ := exists_writes_float (isSome_readBack?_double_iff s.rankSum)
  have hkeeps : ∀ f ∈ [("kernel", Value.text "pr", Value.text "pr"),
      ("max_rank", Value.number (.single s.maxRank), v),
      ("rank_sum", Value.number (.double s.rankSum), w)],
      Keeps (Value.ofNode? levelsBelow) f.2.1 f.2.2 :=
    List.forall_mem_cons.2 ⟨Json.keeps_text "pr", List.forall_mem_cons.2 ⟨⟨_, hwv, hv _⟩,
      List.forall_mem_cons.2 ⟨⟨_, hww, hw _⟩, List.forall_mem_nil _⟩⟩⟩
  obtain ⟨nodes, hwrites, hmembers⟩ := Json.exists_writes_members hkeeps
  refine ⟨_, hwrites, ?_⟩
  rw [Summary.read?_eq_ofFields? hmembers (by simp)]
  show (Summary.ofFields? "pr" (.inl [("max_rank", v), ("rank_sum", w)])).isSome = _
  rw [isSome_ofFields?_ranks, Bool.eq_iff_iff, RankSummary.isFinite, Bool.and_eq_true,
    Bool.and_eq_true, isSome_numberOfValue?_iff, isSome_numberOfValue?_iff]
  exact and_congr hmax hsum

/-- **A summary** is read if and only if it is finite. -/
theorem exists_writes_summary (h : s.Sized) :
    ∃ node, Writes s.toJson.render node ∧ (Summary.read? node).isSome = s.isFinite := by
  cases s with
  | distances s =>
    obtain ⟨node, hwrites, hnode⟩ := keeps_summary (show (Summary.distances s).Readable from h)
    exact ⟨node, hwrites, by rw [hnode]; rfl⟩
  | components s =>
    obtain ⟨node, hwrites, hnode⟩ := keeps_summary (show (Summary.components s).Readable from h)
    exact ⟨node, hwrites, by rw [hnode]; rfl⟩
  | ranks s => exact exists_writes_ranks s

/-! ### Summaries of ranks -/

theorem greaterRank_mem (x y : Float32) : greaterRank x y ∈ [x, y] := by
  unfold greaterRank
  split_ifs <;> simp

/-- The greatest rank is one of them, or the zero that the search begins with. -/
theorem foldl_greaterRank_mem (first : Float32) (ranks : List Float32) :
    ranks.foldl greaterRank first ∈ first :: ranks := by
  induction ranks generalizing first with
  | nil => exact List.mem_singleton_self _
  | cons x ranks ih =>
    have hpair := greaterRank_mem first x
    rcases List.mem_cons.1 (ih (greaterRank first x)) with hfirst | hrest
    · rw [List.foldl_cons, hfirst]
      exact List.mem_append_left ranks hpair
    · exact List.mem_cons_of_mem _ (List.mem_cons_of_mem _ hrest)

/-- **The numbers of a summary are finite** if and only if all ranks are. -/
theorem RankSummary.isFinite_ofRanks_iff (ranks : List Float32) :
    (RankSummary.ofRanks ranks).isFinite = true ↔ ∀ x ∈ ranks, x.isFinite = true := by
  have hzero : Decimal.Within 131 (-0.0 : Float).toModel.unpack := .zero
  have hsum : (RankSummary.ofRanks ranks).rankSum.isFinite = true ↔
      ∀ x ∈ ranks, x.isFinite = true :=
    Decimal.isFinite_addSingles_iff hzero ranks
  rw [RankSummary.isFinite, Bool.and_eq_true, hsum, and_iff_right_iff_imp]
  intro h
  have hall : ∀ x ∈ 0 :: ranks, x.isFinite = true :=
    List.forall_mem_cons.2 ⟨by decide +kernel, h⟩
  exact hall _ (foldl_greaterRank_mem 0 ranks)

/-! ### Records -/

/-- **A record** is read if and only if it is legible. -/
theorem exists_writes_record (h : r.Sized) :
    ∃ node, Writes r.toJson.render node ∧ ((Record.ofNode? node).isSome = true ↔ r.Legible) := by
  obtain ⟨n₁, hw₁, hr₁⟩ := keeps_string r.benchmark
  obtain ⟨n₂, hw₂, hr₂⟩ := keeps_string r.input
  obtain ⟨n₃, hw₃, hr₃⟩ := exists_writes_params h.params
  obtain ⟨n₄, hw₄, hr₄⟩ := keeps_count h.numNodes
  obtain ⟨n₅, hw₅, hr₅⟩ := keeps_count h.numEdges
  obtain ⟨n₆, hw₆, hr₆⟩ := keeps_count h.threads
  obtain ⟨n₇, hw₇, hr₇⟩ := exists_writes_double r.elapsedSeconds
  obtain ⟨n₈, hw₈, hr₈⟩ := keeps_readings h.counters
  obtain ⟨derived, n₉, hw₉, hr₉⟩ := exists_keeps_derived r.derived
  obtain ⟨n₁₀, hw₁₀, hr₁₀⟩ := exists_writes_summary h.summary
  have hfields : Keeps (fields? fieldNames) r.toJson
      ([n₁, n₂, n₃, n₄, n₅, n₆, n₇, n₈, n₉, n₁₀].map some) :=
    keeps_fields (by decide) rfl (.cons hw₁ (.cons hw₂ (.cons hw₃ (.cons hw₄ (.cons hw₅ (.cons hw₆
      (.cons hw₇ (.cons hw₈ (.cons hw₉ (.cons hw₁₀ .nil))))))))))
  obtain ⟨node, hwrites, hnode⟩ := hfields
  refine ⟨node, hwrites, ?_⟩
  have hnodes : ([n₁, n₂, n₃, n₄, n₅, n₆, n₇, n₈, n₉, n₁₀].map some).mapM id =
      some [n₁, n₂, n₃, n₄, n₅, n₆, n₇, n₈, n₉, n₁₀] := rfl
  rw [Record.legible_iff, ← hr₃, ← hr₇, ← hr₁₀]
  unfold Record.ofNode?
  -- All other parts are read, so these three decide.
  simp only [hnode, hnodes, hr₁, hr₂, hr₄, hr₅, hr₆, hr₈, hr₉, Option.bind_eq_bind,
    Option.bind_some]
  cases paramsOf? n₃ with
  | none => simp
  | some params =>
    cases numberOf? n₇ with
    | none => simp
    | some seconds => cases Summary.read? n₁₀ <;> simp

/-- **The line of a record** is one line, and a record is read of it if and only if the one that was
    written is legible. -/
theorem Record.isSome_read?_render_iff (h : r.Sized) :
    '\n' ∉ r.toJson.render ∧ ((Record.read? r.toJson.render).isSome = true ↔ r.Legible) := by
  obtain ⟨node, hwrites, hnode⟩ := exists_writes_record h
  refine ⟨hwrites.newline_notMem, ?_⟩
  unfold Record.read?
  rwa [hwrites.read?_eq, Option.bind_some]

end SparseGraph.Report
