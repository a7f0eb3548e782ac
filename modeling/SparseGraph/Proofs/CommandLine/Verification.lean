import Mathlib
import SparseGraph.CommandLine.Measuring
import SparseGraph.Proofs.Fallible
import SparseGraph.Proofs.ShortestPath.Dijkstra

namespace SparseGraph

/-!
# Distances that are checked

Dijkstra's algorithm finds the true distances, so delta stepping always stands the comparison with
it, and a run that is asked to check its distances never fails because of them.

* `Files.cause_of_loadGraph`, `CommandLine.cause_of_finish` — why loading a graph may fail, and why
  the end of a run;
* `CommandLine.checkDistances_dijkstra` — the comparison of equal distances;
* `CommandLine.cause_of_planDistances` — why a run may fail;
* `CommandLine.dijkstra_isDistance` — the distances that are compared with, and what becomes of the
  comparison.
-/

/-! ### Files -/

namespace Files

variable {s : Store} {path : String} {format : Format} {reading parsing : Context}
  {parse : List Char → Except GraphError Graph} {bytes : List UInt8} {f : Failure}

/-- Text fails as a file or as a graph. -/
theorem cause_of_loadText (h : loadText s path reading parsing parse = .error f) (count : Nat) :
    f.cause ≠ .distancesDiffer count := by
  unfold loadText at h
  split at h
  · cases h
    exact Cause.noConfusion
  · obtain ⟨e, _, rfl⟩ := mapError_eq_error_iff.1 h
    exact Cause.noConfusion

/-- A table fails as a graph or by a number that it declares. -/
theorem cause_ofTableError (e : Graph.TableError) (count : Nat) :
    (Failure.ofTableError e).cause ≠ .distancesDiffer count := by
  cases e <;> exact Cause.noConfusion

/-- A file of bytes fails as a table. -/
theorem cause_of_graphOfBytes (h : graphOfBytes bytes = .error f) (count : Nat) :
    f.cause ≠ .distancesDiffer count := by
  unfold graphOfBytes graphOfContents at h
  split at h
  · cases h
    exact Cause.noConfusion
  · split at h
    · obtain ⟨e, _, rfl⟩ := mapError_eq_error_iff.1 h
      exact cause_ofTableError e count
    · -- The first fault counts: of the declared numbers, of the rows, or where reading stopped.
      simp only [bind_eq_error_iff, mapError_eq_error_iff] at h
      rcases h with ⟨e, _, rfl⟩ | ⟨_, _, ⟨e, _, rfl⟩ | ⟨_, _, ⟨e, _, rfl⟩ | ⟨_, _, h⟩⟩⟩
      · exact cause_ofTableError e count
      · exact cause_ofTableError e count
      · exact Cause.noConfusion
      · cases h
        exact Cause.noConfusion

/-- **Loading a graph** compares no distances. -/
theorem cause_of_loadGraph (h : loadGraph s path format = .error f) (count : Nat) :
    f.cause ≠ .distancesDiffer count := by
  cases format with
  | adjacency => exact cause_of_loadText h count
  | edgeList => exact cause_of_loadText h count
  | table =>
    have htable : loadTable s path = .error f := h
    unfold loadTable at htable
    split at htable
    · obtain ⟨e, _, rfl⟩ := mapError_eq_error_iff.1 htable
      exact cause_ofTableError e count
    · exact cause_of_graphOfBytes htable count
    · exact cause_of_graphOfBytes htable count
    · cases htable
      exact Cause.noConfusion
    · cases htable
      exact Cause.noConfusion

end Files

namespace CommandLine

open Files (Store)
open ShortestPath (IsDistance deltaStep dijkstra infinity)

variable {store : Store} {args : BenchArgs} {output lines : List String} {record : Report.Record}
  {check : Unit → Except Failure (List String)} {f : Failure}

/-! ### Runs -/

/-- A run whose check succeeds can only fail because of the file of its record. -/
theorem cause_of_finish (hcheck : check () = .ok lines)
    (h : (finish store args output record check).status = .failed f) (count : Nat) :
    f.cause ≠ .distancesDiffer count := by
  unfold finish at h
  rw [hcheck] at h
  cases hrecord : args.record with
  | none =>
    rw [hrecord] at h
    cases h
  | some path =>
    rw [hrecord] at h
    cases hsaved : Files.appendRecord store path record with
    | ok saved =>
      simp only [hsaved] at h
      cases h
    | error failure =>
      simp only [hsaved] at h
      cases h
      obtain ⟨fault, _, rfl⟩ := mapError_eq_error_iff.1 hsaved
      exact Cause.noConfusion

/-- **Equal distances stand the comparison.** -/
theorem checkDistances_dijkstra (g : Graph) (source : Nat) :
    checkDistances g source (dijkstra g source) = .ok [checkedLine] := by
  have hcount : ((dijkstra g source).toList.zip (dijkstra g source).toList).countP
      (fun pair => pair.1 != pair.2) = 0 := by
    rw [List.countP_eq_zero]
    intro pair hpair
    rw [List.zip_eq_zipWith, List.zipWith_self] at hpair
    obtain ⟨d, _, rfl⟩ := List.mem_map.1 hpair
    simp
  unfold checkDistances
  exact if_pos hcount

/-- **A run that computes distances** never fails because of them, whether it is asked to check them
    or not. -/
theorem cause_of_planDistances {given : Given} {nanoseconds : Nat}
    (h : ((planDistances store given).outcome nanoseconds).status = .failed f) (count : Nat) :
    f.cause ≠ .distancesDiffer count := by
  unfold planDistances at h
  dsimp only at h
  split at h
  next failure hload =>
    cases h
    unfold loadInput at hload
    rcases bind_eq_error_iff.1 hload with hgraph | ⟨g, _, hdone⟩
    · obtain ⟨inner, hinner, rfl⟩ := mapError_eq_error_iff.1 hgraph
      exact Files.cause_of_loadGraph hinner count
    · cases hdone
  next g sizeLine hload =>
    split at h
    · cases h
      exact Cause.noConfusion
    · rw [Plan.outcome] at h
      split at h
      · cases h
        exact Cause.noConfusion
      next r hr =>
        have hcheck : (if given.has "verify" then
            checkDistances g (((given.value? "source").bind readWord?).getD 0) r.distances
            else .ok []) = .ok (if given.has "verify" then [checkedLine] else []) := by
          rw [ShortestPath.distances_of_deltaStep hr, checkDistances_dijkstra]
          split <;> rfl
        exact cause_of_finish hcheck h count

/-- **Dijkstra's algorithm finds the distances.** From a vertex, each vertex gets the least weight of
    a walk from the source, cut off at `infinity`, and delta stepping finds the same for every width
    of the buckets; from what is no vertex, none is reached. The comparison of the two is always
    stood, and no run of the program that compares them ever tells that distances differ. -/
theorem dijkstra_isDistance (g : Graph) (source : Nat) :
    (source < g.numNodes →
      (dijkstra g source).size = g.numNodes ∧
      (∀ v < g.numNodes, ∃ d, (dijkstra g source)[v]? = some d ∧ IsDistance g source v d) ∧
      ∀ shift, ∃ tally, deltaStep g source shift = .ok ⟨dijkstra g source, tally⟩) ∧
    (g.numNodes ≤ source → dijkstra g source = Array.replicate g.numNodes infinity) ∧
    (∀ shift r, deltaStep g source shift = .ok r →
      checkDistances g source r.distances = .ok [checkedLine]) ∧
    ∀ (store : Store) (given : Given) (nanoseconds : Nat) (failure : Failure),
      ((planDistances store given).outcome nanoseconds).status = .failed failure →
        ∀ count, failure.cause ≠ .distancesDiffer count := by
  refine ⟨fun hsource => ?_, ShortestPath.dijkstra_of_le, fun shift r hr => ?_,
    fun store given nanoseconds failure h => cause_of_planDistances h⟩
  · have inv := ShortestPath.relaxing_dijkstra hsource
    refine ⟨inv.size_eq, fun v hv => ⟨(dijkstra g source).getD v 0, ?_, ?_⟩, fun shift => ?_⟩
    · exact ShortestPath.getElem?_eq_some_getD (by rw [inv.size_eq]; exact hv)
    · exact inv.isDistance (fun _ => not_false) hv
    · obtain ⟨r, hr, _⟩ := ShortestPath.exists_deltaStep hsource shift
      exact ⟨r.tally, by rw [hr, ← ShortestPath.distances_of_deltaStep hr]⟩
  · rw [ShortestPath.distances_of_deltaStep hr]
    exact checkDistances_dijkstra g source

/-- The general theorem at the detour, and at a run whose file is missing: both searches find the way
    round, vertex 5 reaches nothing, and the run fails, but not by a comparison. -/
theorem dijkstra_isDistance_detour :
    let missing : Failure :=
      ⟨[.loading "g.adj", .readingAdjacency "g.adj"], .file .missing⟩
    0 < ShortestPath.detour.numNodes ∧
      dijkstra ShortestPath.detour 0 = #[0, 2, 1, infinity, infinity] ∧
      IsDistance ShortestPath.detour 0 1 2 ∧
      (∃ tally, deltaStep ShortestPath.detour 0 1 = .ok ⟨#[0, 2, 1, infinity, infinity], tally⟩ ∧
        checkDistances ShortestPath.detour 0 #[0, 2, 1, infinity, infinity] = .ok [checkedLine]) ∧
      ShortestPath.detour.numNodes ≤ 5 ∧
      dijkstra ShortestPath.detour 5 = Array.replicate 5 infinity ∧
      ((planDistances .empty [("INPUT", "g.adj"), ("verify", "")]).outcome 0).status =
        .failed missing ∧
      missing.cause ≠ .distancesDiffer 1 := by
  intro missing
  have hsource : 0 < ShortestPath.detour.numNodes := by decide
  have hbeyond : ShortestPath.detour.numNodes ≤ 5 := by decide
  have hrun : dijkstra ShortestPath.detour 0 = #[0, 2, 1, infinity, infinity] := by
    decide +kernel
  have hfailed : ((planDistances .empty [("INPUT", "g.adj"), ("verify", "")]).outcome 0).status =
      .failed missing := by cbv
  obtain ⟨hdistances, _, hcheck, hcause⟩ := dijkstra_isDistance ShortestPath.detour 0
  obtain ⟨_, hall, hdelta⟩ := hdistances hsource
  obtain ⟨tally, htally⟩ := hdelta 1
  refine ⟨hsource, hrun, ?_, ⟨tally, ?_, ?_⟩, hbeyond,
    (dijkstra_isDistance ShortestPath.detour 5).2.1 hbeyond, hfailed,
    hcause _ _ _ missing hfailed 1⟩
  · obtain ⟨d, hd, hdist⟩ := hall 1 (by decide)
    rw [hrun] at hd
    cases hd
    exact hdist
  · rw [htally, hrun]
  · have hchecked := hcheck 1 _ htally
    rw [hrun] at hchecked
    exact hchecked

end CommandLine

end SparseGraph
