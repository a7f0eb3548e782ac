import SparseGraph.Proofs.Graph.AdjacencyGrammar

namespace SparseGraph.Graph

open Text (Denotes Token tokens digits isBlank maxWord)

/-!
# Adjacency texts read back

The words of a graph spell its arrays, so its text is read back as that graph; without weights it is
read back with weights of 1.

* `unweighted` — a graph with weights of 1;
* `spells_tokens_adjacencyText` — what the text of a graph spells;
* `ofAdjacencyText_adjacencyText` — the graph that is read back;
* `adjacencyText_roundTrip` — writing then reading, and reading then writing then reading.
-/

variable {g : Graph} {weighted : Bool}

/-- The graph with every weight replaced by 1. -/
def unweighted (g : Graph) : Graph :=
  { g with
    weights := g.weights.map fun _ => 1
    size_weights := by rw [Array.size_map, g.size_weights] }

theorem isWeighted_eq_false_iff : g.isWeighted = false ↔ ∀ w ∈ g.weights, w = 1 := by
  unfold isWeighted
  rw [Array.any_eq_false']
  simp

/-- Nothing is lost without weights just in case there were none to speak of. -/
theorem unweighted_eq_self_iff : g.unweighted = g ↔ g.isWeighted = false := by
  rw [isWeighted_eq_false_iff]
  constructor
  · intro h w hw
    have hweights : g.weights.map (fun _ => 1) = g.weights := congrArg weights h
    rw [← hweights] at hw
    obtain ⟨_, _, rfl⟩ := Array.mem_map.1 hw
    rfl
  · intro h
    refine ext_arrays rfl rfl ?_
    show g.weights.map (fun _ => 1) = g.weights
    exact (Array.map_congr_left fun w hw => (h w hw).symm).trans (Array.map_id _)

/-! ### The words of a graph -/

/-- A word of a graph is its header or a numeral. -/
theorem mem_adjacencyWords {word : List Char} (h : word ∈ g.adjacencyWords weighted) :
    word = headerWord weighted ∨ ∃ n, word = digits n := by
  simp only [adjacencyWords, List.mem_append, List.mem_cons, List.not_mem_nil, or_false,
    List.mem_map] at h
  rcases h with (((h | h | h) | ⟨w, _, rfl⟩) | ⟨w, _, rfl⟩) | h
  · exact .inl h
  · exact .inr ⟨_, h⟩
  · exact .inr ⟨_, h⟩
  · exact .inr ⟨_, rfl⟩
  · exact .inr ⟨_, rfl⟩
  · split at h
    · obtain ⟨w, _, rfl⟩ := List.mem_map.1 h
      exact .inr ⟨_, rfl⟩
    · exact absurd h List.not_mem_nil

theorem ne_nil_of_mem_adjacencyWords {word : List Char} (h : word ∈ g.adjacencyWords weighted) :
    word ≠ [] := by
  rcases mem_adjacencyWords h with rfl | ⟨n, rfl⟩
  · cases weighted <;> decide
  · exact Nat.toDigits_ne_nil

/-- No word of a graph holds a blank. -/
theorem isBlank_of_mem_adjacencyWords {word : List Char} (h : word ∈ g.adjacencyWords weighted) :
    ∀ c ∈ word, isBlank c = false := by
  intro c hc
  rcases mem_adjacencyWords h with rfl | ⟨n, rfl⟩
  · have hheader : (headerWord weighted).all (!isBlank ·) = true := by cases weighted <;> decide
    simpa using List.all_eq_true.1 hheader c hc
  · exact Text.isBlank_eq_false_of_mem_digits hc

/-- The tokens of the text are the words that were written. -/
theorem map_text_tokens_adjacencyText (g : Graph) (weighted : Bool) :
    (tokens (g.adjacencyText weighted)).map Token.text = g.adjacencyWords weighted :=
  Text.map_text_tokens_flatMap (fun _ => ne_nil_of_mem_adjacencyWords) fun _ =>
    isBlank_of_mem_adjacencyWords

/-- Written numbers are numerals of these numbers. -/
theorem numerals_of_map_text {count : Nat} {ts : List Token} {ws : List UInt32}
    (hlength : ws.length = count) (h : ts.map Token.text = ws.map (digits ·.toNat)) :
    Numerals count ts ws := by
  refine ⟨hlength, ?_⟩
  clear hlength
  induction ws generalizing ts with
  | nil =>
    rw [List.map_nil, List.map_eq_nil_iff] at h
    subst h
    exact .nil
  | cons w ws ih =>
    obtain ⟨t, ts, rfl, ht, hts⟩ := List.map_eq_cons_iff.1 h
    refine .cons ?_ (ih hts)
    rw [ht]
    exact Text.denotes_digits w.toNat

/-- A count that a word can hold is written as a numeral of that word. -/
theorem denotes_ofNat {n : Nat} (hn : n < UInt32.size) :
    Denotes (digits n) (UInt32.ofNat n).toNat := by
  rw [UInt32.toNat_ofNat_of_lt' hn]
  exact Text.denotes_digits n

/-- **The text of a graph spells its arrays.** Without weights it spells weights of 1. -/
theorem spells_tokens_adjacencyText (hn : g.numNodes ≤ maxWord) :
    Spells (tokens (g.adjacencyText weighted)) (UInt32.ofNat g.numNodes) (UInt32.ofNat g.numEdges)
      (g.offsets.toList.take g.numNodes) g.targets.toList
      (if weighted then g.weights.toList else List.replicate g.numEdges 1) := by
  have hnodes : g.numNodes < UInt32.size := Text.lt_size_iff.2 hn
  have hedges : g.numEdges < UInt32.size := Text.lt_size_iff.2 g.numEdges_le
  have hwords := map_text_tokens_adjacencyText g weighted
  unfold adjacencyWords at hwords
  simp only [List.append_assoc, List.cons_append, List.nil_append] at hwords
  -- The tokens are cut where the words are.
  obtain ⟨header, _, hts, hheader, hwords⟩ := List.map_eq_cons_iff.1 hwords
  obtain ⟨vertexCount, _, rfl, hvertexCount, hwords⟩ := List.map_eq_cons_iff.1 hwords
  obtain ⟨edgeCount, _, rfl, hedgeCount, hwords⟩ := List.map_eq_cons_iff.1 hwords
  obtain ⟨offsetTokens, _, rfl, hoffsets, hwords⟩ := List.map_eq_append_iff.1 hwords
  obtain ⟨targetTokens, weightTokens, rfl, htargets, hweights⟩ := List.map_eq_append_iff.1 hwords
  refine ⟨weighted, _, ⟨header, vertexCount, edgeCount, hts, hheader, ?_, ?_⟩, offsetTokens,
    targetTokens, weightTokens, [], by rw [List.append_nil], ?_, ?_, ?_⟩
  · rw [hvertexCount]
    exact denotes_ofNat hnodes
  · rw [hedgeCount]
    exact denotes_ofNat hedges
  · refine numerals_of_map_text ?_ hoffsets
    have hsize := g.size_offsets
    rw [UInt32.toNat_ofNat_of_lt' hnodes, List.length_take, Array.length_toList]
    omega
  · refine numerals_of_map_text ?_ htargets
    rw [UInt32.toNat_ofNat_of_lt' hedges, Array.length_toList]
    rfl
  · unfold SpellsWeights
    rw [UInt32.toNat_ofNat_of_lt' hedges]
    cases weighted with
    | true =>
      refine numerals_of_map_text ?_ hweights
      rw [if_pos rfl, Array.length_toList, g.size_weights]
      rfl
    | false => exact ⟨List.map_eq_nil_iff.1 hweights, rfl⟩

/-- **A written graph is read back,** without weights as the graph with weights of 1. -/
theorem ofAdjacencyText_adjacencyText (hn : g.numNodes ≤ maxWord) (weighted : Bool) :
    ofAdjacencyText (g.adjacencyText weighted) = .ok (if weighted then g else g.unweighted) := by
  refine ofAdjacencyText_eq_ok_iff.2
    ⟨_, _, _, _, _, spells_tokens_adjacencyText hn, ofParts_eq_ok_iff.2 ?_⟩
  -- The last offset is not written, but it is the number of edges, which is.
  rw [← g.toList_offsets]
  cases weighted with
  | true => exact ⟨rfl, rfl, rfl⟩
  | false =>
    refine ⟨rfl, rfl, ?_⟩
    show g.weights.map (fun _ => 1) = (List.replicate g.numEdges 1).toArray
    apply Array.toList_inj.1
    rw [Array.toList_map, List.map_const', Array.length_toList, g.size_weights]
    rfl

/-- The vertices of a graph that was read can be counted in a word. -/
theorem numNodes_le_of_ofAdjacencyText {text : List Char} (h : ofAdjacencyText text = .ok g) :
    g.numNodes ≤ maxWord := by
  obtain ⟨n, m, offsets, targets, weights, hspells, hparts⟩ := ofAdjacencyText_eq_ok_iff.1 h
  obtain ⟨_, _, _, _, _, _, _, _, ⟨hoffsets, _⟩, _⟩ := hspells
  have hle := Text.toNat_le_maxWord n
  unfold numNodes
  rw [(ofParts_eq_ok_iff.1 hparts).1, List.size_toArray, List.length_append, hoffsets]
  exact hle

/-- **The round trip of adjacency texts.** A graph that is written is read back, with its weights or
    with weights of 1; the second is the graph itself just in case it has no other weights. And a
    graph that was read is read again from what is written for it. -/
theorem adjacencyText_roundTrip :
    (∀ g : Graph, g.numNodes ≤ maxWord →
      ofAdjacencyText (g.adjacencyText true) = .ok g ∧
      ofAdjacencyText (g.adjacencyText false) = .ok g.unweighted ∧
      (ofAdjacencyText (g.adjacencyText false) = .ok g ↔ g.isWeighted = false)) ∧
    (∀ (text : List Char) (g : Graph), ofAdjacencyText text = .ok g →
      ofAdjacencyText (g.adjacencyText true) = .ok g) := by
  constructor
  · intro g hn
    have hfalse : ofAdjacencyText (g.adjacencyText false) = .ok g.unweighted :=
      ofAdjacencyText_adjacencyText hn false
    refine ⟨ofAdjacencyText_adjacencyText hn true, hfalse, ?_⟩
    rw [hfalse, Except.ok.injEq, unweighted_eq_self_iff]
  · intro text g h
    exact ofAdjacencyText_adjacencyText (numNodes_le_of_ofAdjacencyText h) true

/-- One edge, of weight 7, and a last vertex without any. -/
def oneEdge : Graph where
  offsets := #[0, 1, 1]
  targets := #[1]
  weights := #[7]
  first_offset := rfl
  last_offset := rfl
  sorted_offsets := by decide
  size_weights := rfl
  target_lt := by simp

theorem adjacencyText_roundTrip_oneEdge :
    oneEdge.numNodes ≤ maxWord ∧
    (ofAdjacencyText (oneEdge.adjacencyText true) = .ok oneEdge ∧
      ofAdjacencyText (oneEdge.adjacencyText false) = .ok oneEdge.unweighted ∧
      (ofAdjacencyText (oneEdge.adjacencyText false) = .ok oneEdge ↔ oneEdge.isWeighted = false)) ∧
    (ofAdjacencyText "WeightedAdjacencyGraph 2 1 0 +1 1 7 8".toList = .ok oneEdge ∧
      ofAdjacencyText (oneEdge.adjacencyText true) = .ok oneEdge) := by
  have hn : oneEdge.numNodes ≤ maxWord := by decide
  have htext : ofAdjacencyText "WeightedAdjacencyGraph 2 1 0 +1 1 7 8".toList = .ok oneEdge := by
    decide
  exact ⟨hn, adjacencyText_roundTrip.1 oneEdge hn, htext, adjacencyText_roundTrip.2 _ oneEdge htext⟩

end SparseGraph.Graph
