import SparseGraph.Proofs.Files.RecordFiles
import SparseGraph.Proofs.Report.LegibleRecords

namespace SparseGraph.Files

open Report (Record levelsBelow)
open Store (extended)

/-!
# Record files that can be read

Every record adds one line to its file. A record is read of that line if and only if it is legible:
ranks that are infinite or no numbers leave a line that cannot be read.

* `appendRecord_legible_iff` — which records are read of their lines;
* `rankRecord` — a record of given ranks, legible or not.
-/

variable {s : Store} {path : String} {old : Content} {r : Record}

/-- The ranks of a legible record are finite. -/
theorem legible_iff_of_ranks {ranks : List Float32} (h : r.summary = .ranks (.ofRanks ranks)) :
    r.Legible ↔ (∀ p ∈ r.params.entries, p.2.Legible levelsBelow) ∧
      r.elapsedSeconds.isFinite = true ∧ ∀ x ∈ ranks, x.isFinite = true := by
  have hsummary : r.summary.isFinite = true ↔ ∀ x ∈ ranks, x.isFinite = true := by
    rw [h]
    exact Report.RankSummary.isFinite_ofRanks_iff ranks
  rw [Record.legible_iff, hsummary]

/-- **A record that is added** to a file stands there on a line of its own, and a record is read of
    this line if and only if it is legible: its parameters are not too deep, and its time and all
    its ranks are finite. -/
theorem appendRecord_legible_iff (hold : s.Holds path old) (hr : r.Sized) :
    ∃ after, appendRecord s path r = .ok after ∧
      after.read path = .ok (extended (String.ofList (r.toJson.render ++ ['\n'])) old) ∧
      '\n' ∉ r.toJson.render ∧
      ((Record.read? r.toJson.render).isSome = true ↔ r.Legible) ∧
      ∀ ranks, r.summary = .ranks (.ofRanks ranks) →
        (r.Legible ↔ (∀ p ∈ r.params.entries, p.2.Legible levelsBelow) ∧
          r.elapsedSeconds.isFinite = true ∧ ∀ x ∈ ranks, x.isFinite = true) := by
  obtain ⟨after, happend, _, hread⟩ := exists_appendRecord hold r
  obtain ⟨hline, hlegible⟩ := Record.isSome_read?_render_iff hr
  exact ⟨after, happend, hread, hline, hlegible, fun _ => legible_iff_of_ranks⟩

/-- A record of ranks, with a parameter that is no number. -/
def rankRecord (ranks : List Float32) : Record where
  benchmark := "pr"
  input := "g.adj"
  params := ⟨[("damping", .number (.double (0 / 0)))], by decide⟩
  numNodes := 2
  numEdges := 1
  threads := 1
  elapsedSeconds := 0.25
  counters := ⟨[], by decide⟩
  derived := ⟨none, none, none, none⟩
  summary := .ranks (.ofRanks ranks)

theorem sized_rankRecord (ranks : List Float32) : (rankRecord ranks).Sized where
  params := List.forall_mem_cons.2 ⟨⟨0, .double _⟩, List.forall_mem_nil _⟩
  numNodes := (by decide : 2 ≤ Text.maxLong)
  numEdges := (by decide : 1 ≤ Text.maxLong)
  threads := (by decide : 1 ≤ Text.maxLong)
  counters := List.forall_mem_nil _
  summary := trivial

/-- Such a record is legible if and only if its ranks are finite. -/
theorem legible_rankRecord_iff (ranks : List Float32) :
    (rankRecord ranks).Legible ↔ ∀ x ∈ ranks, x.isFinite = true := by
  have hparams : ∀ p ∈ (rankRecord ranks).params.entries, p.2.Legible levelsBelow :=
    List.forall_mem_cons.2 ⟨.double _, List.forall_mem_nil _⟩
  have hseconds : (0.25 : Float).isFinite = true := by decide +kernel
  rw [legible_iff_of_ranks rfl]
  exact ⟨fun h => h.2.2, fun h => ⟨hparams, hseconds, h⟩⟩

/-- The general theorem for two finite ranks, one of them negative. -/
theorem appendRecord_legible_iff_finite :
    Store.Holds ⟨[(["ranks.jsonl"], .text "")], []⟩ "ranks.jsonl" (.text "") ∧
      (rankRecord [-0.5, 3]).Sized ∧
      ∃ after, appendRecord ⟨[(["ranks.jsonl"], .text "")], []⟩ "ranks.jsonl"
          (rankRecord [-0.5, 3]) = .ok after ∧
        after.read "ranks.jsonl" = .ok (extended
          (String.ofList ((rankRecord [-0.5, 3]).toJson.render ++ ['\n'])) (.text "")) ∧
        (Record.read? (rankRecord [-0.5, 3]).toJson.render).isSome = true := by
  have hold : Store.Holds ⟨[(["ranks.jsonl"], .text "")], []⟩ "ranks.jsonl" (.text "") :=
    ⟨["ranks.jsonl"], rfl, by decide, rfl⟩
  have hsized := sized_rankRecord [-0.5, 3]
  obtain ⟨after, happend, hread, _, hlegible, _⟩ := appendRecord_legible_iff hold hsized
  refine ⟨hold, hsized, after, happend, hread, hlegible.2 ?_⟩
  exact (legible_rankRecord_iff _).2 (by decide +kernel)

/-- **A rank that is no number** leaves a line of which no record is read. -/
theorem rankRecord_nan_notLegible :
    (rankRecord [0 / 0]).Sized ∧ Record.read? (rankRecord [0 / 0]).toJson.render = none := by
  refine ⟨sized_rankRecord _, Option.not_isSome_iff_eq_none.1 fun h => ?_⟩
  have hlegible := (Record.isSome_read?_render_iff (sized_rankRecord [0 / 0])).2.1 h
  have hfinite : (0 / 0 : Float32).isFinite = true :=
    (legible_rankRecord_iff _).1 hlegible _ (List.mem_singleton_self _)
  exact absurd hfinite (by decide +kernel)

end SparseGraph.Files
