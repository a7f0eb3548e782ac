import SparseGraph.Proofs.Fallible
import SparseGraph.Proofs.Json.Values
import SparseGraph.Report.RecordReader

namespace SparseGraph.Report

open Json (Keeps Node Number ReadsBack SingleReadsBack TextUnit Value Writes namedNodes)
open Text (maxLong maxWord)

/-!
# Records that are written

A record is read of its line as long as its floating point values are read of their texts; its
strings may be any.

* `Record.Readable` — the records that can be read;
* `keeps_fields` — the fields of an object that is written;
* `keeps_derived`, `keeps_summary`, `keeps_record` — each part is read as itself;
* `Record.read?_render` — and so is the record.
-/

/-- The ratios, present or not. -/
def Derived.ratios (d : Derived) : List (Option Float) :=
  [d.ipc, d.mlp, d.memoryStall, d.memoryBound]

/-- Summaries that can be read: counts fit into their words, and floating point values are read of
    their texts. -/
def Summary.Readable : Summary → Prop
  | .distances s => s.maxDistance ≤ maxWord ∧ s.reachable ≤ maxLong ∧ s.numNodes ≤ maxLong
  | .components s => s.components ≤ maxLong ∧ s.largest ≤ maxLong
  | .ranks s => SingleReadsBack s.maxRank ∧ ReadsBack s.rankSum

/-- Records that can be read: counts fit into their words, parameters are not too deep, and floating
    point values are read of their texts. -/
structure Record.Readable (r : Record) : Prop where
  params : ∀ p ∈ r.params.entries, p.2.Readable levelsBelow
  numNodes : r.numNodes ≤ maxLong
  numEdges : r.numEdges ≤ maxLong
  threads : r.threads ≤ maxLong
  elapsedSeconds : ReadsBack r.elapsedSeconds
  counters : ∀ c ∈ r.counters.entries, c.2 ≤ maxLong
  derived : ∀ x, some x ∈ r.derived.ratios → ReadsBack x
  summary : r.summary.Readable

variable {α : Type} {members : List (String × α)} {nodes : List (String × Node)} {name : String}
  {value : α} {n bound : Nat} {x : Float} {ratio : Option Float}

/-! ### Fields -/

/-- A name that occurs once has its value. -/
theorem field?_of_mem (hnodup : (members.map Prod.fst).Nodup) (h : (name, value) ∈ members) :
    field? members name = some (some value) := by
  -- No other member has this name, neither in front of it nor behind it.
  have hfilter : members.filter (·.1 == name) = [(name, value)] := by
    induction members with
    | nil => cases h
    | cons m members ih =>
      obtain ⟨hfirst, hrest⟩ := List.nodup_cons.1 hnodup
      rcases List.mem_cons.1 h with rfl | hmem
      · have hnone : members.filter (·.1 == name) = [] := by
          rw [List.filter_eq_nil_iff]
          intro m hm heq
          exact hfirst (List.mem_map.2 ⟨m, hm, beq_iff_eq.1 heq⟩)
        rw [List.filter_cons, if_pos (beq_self_eq_true name), hnone]
      · have hne : ¬ (m.1 == name) = true := by
          intro heq
          exact hfirst (List.mem_map.2 ⟨(name, value), hmem, (beq_iff_eq.1 heq).symm⟩)
        rw [List.filter_cons, if_neg hne, ih hrest hmem]
  unfold field?
  rw [hfilter]

/-- Names that occur have their values. -/
theorem mapM_field? {found : List (String × α)} (hnodup : (members.map Prod.fst).Nodup)
    (h : ∀ m ∈ found, m ∈ members) :
    (found.map Prod.fst).mapM (field? members) = some (found.map fun m => some m.2) := by
  rw [mapM_eq_some_iff, List.forall₂_map_left_iff, List.forall₂_map_right_iff, List.forall₂_same]
  exact fun m hm => field?_of_mem hnodup (h m hm)

theorem memberNames?_namedNodes (nodes : List (String × Node)) :
    memberNames? (namedNodes nodes) = some nodes := by
  unfold memberNames? namedNodes
  rw [mapM_eq_some_iff, List.forall₂_map_left_iff, List.forall₂_same]
  intro n _
  show (Json.decodeText? (Json.unitsOf n.1)).map (·, n.2) = _
  rw [Json.decodeText?_unitsOf]
  rfl

/-- **The fields of an object** that is written with them. -/
theorem keeps_fields {names : List String} {fields : List (String × Value)}
    {nodes : List Node} (hnodup : names.Nodup) (hnames : fields.map Prod.fst = names)
    (h : List.Forall₂ (fun f node => Writes f.2.render node) fields nodes) :
    Keeps (fields? names) (.object fields) (nodes.map some) := by
  -- The nodes are given the names of their fields.
  have hnamed : ∃ named : List (String × Node),
      List.Forall₂ (fun f n => n.1 = f.1 ∧ Writes f.2.render n.2) fields named ∧
        named.map Prod.fst = fields.map Prod.fst ∧ named.map Prod.snd = nodes := by
    clear hnames
    induction h with
    | nil => exact ⟨[], .nil, rfl, rfl⟩
    | @cons f node fields nodes hf _ ih =>
      obtain ⟨named, hwrites, hfst, hsnd⟩ := ih
      exact ⟨(f.1, node) :: named, .cons ⟨rfl, hf⟩ hwrites, congrArg (f.1 :: ·) hfst,
        congrArg (node :: ·) hsnd⟩
  obtain ⟨named, hwrites, hfst, rfl⟩ := hnamed
  have hname : named.map Prod.fst = names := hfst.trans hnames
  refine ⟨_, Json.writes_object hwrites, ?_⟩
  show (memberNames? (namedNodes named) >>= fun members => names.mapM (field? members)) = _
  rw [memberNames?_namedNodes, List.map_map]
  subst hname
  exact mapM_field? hnodup fun _ => id

/-! ### Numbers -/

theorem countOf?_of_le (h : n ≤ bound) : countOf? bound (.integer n) = some n := by
  show (if 0 ≤ (n : Int) ∧ (n : Int) ≤ bound then some (n : Int).toNat else none) = some n
  rw [if_pos ⟨Int.natCast_nonneg n, Int.ofNat_le.2 h⟩, Int.toNat_natCast]

/-- A count of 64 bits is read as itself. -/
theorem readBack?_count (h : n ≤ maxLong) :
    (Number.integer n).readBack? = some (.integer n) :=
  Json.readBack?_integer (by omega) (Int.ofNat_le.2 h)

theorem keeps_count (h : n ≤ maxLong) : Keeps longOf? (countValue n) n := by
  obtain ⟨t, hwrites, ht⟩ := Json.exists_writes_render (readBack?_count h)
  refine ⟨.number t, hwrites, ?_⟩
  show (Number.ofText? t).bind (countOf? maxLong) = _
  rw [ht, Option.bind_some, countOf?_of_le h]

theorem keeps_double (h : ReadsBack x) : Keeps numberOf? (.number (.double x)) (.double x) := by
  obtain ⟨t, hwrites, ht⟩ := Json.exists_writes_render h
  exact ⟨.number t, hwrites, ht⟩

theorem keeps_string (s : String) : Keeps textOf? (.text s) s :=
  ⟨_, Json.writes_renderText s, Json.decodeText?_unitsOf s⟩

theorem keeps_ratio (h : ∀ x, ratio = some x → ReadsBack x) :
    ∃ node, Writes (ratioValue ratio).render node ∧ ratioOf? (some node) = some ratio := by
  cases ratio with
  | none => exact ⟨.null, Json.writes_null, rfl⟩
  | some x =>
    obtain ⟨t, hwrites, ht⟩ := Json.exists_writes_render (h x rfl)
    refine ⟨.number t, hwrites, ?_⟩
    show (Number.ofText? t).map _ = _
    rw [ht]
    rfl

/-! ### Parts of a record -/

/-- **Ratios** are read as themselves. -/
theorem keeps_derived {d : Derived} (h : ∀ x, some x ∈ d.ratios → ReadsBack x) :
    Keeps derivedOf? d.toJson d := by
  have hratio : ∀ ratio ∈ d.ratios,
      ∃ node, Writes (ratioValue ratio).render node ∧ ratioOf? (some node) = some ratio := by
    intro ratio hmem
    refine keeps_ratio fun x hx => h x ?_
    rwa [← hx]
  obtain ⟨n₁, hw₁, hr₁⟩ := hratio d.ipc (by simp [Derived.ratios])
  obtain ⟨n₂, hw₂, hr₂⟩ := hratio d.mlp (by simp [Derived.ratios])
  obtain ⟨n₃, hw₃, hr₃⟩ := hratio d.memoryStall (by simp [Derived.ratios])
  obtain ⟨n₄, hw₄, hr₄⟩ := hratio d.memoryBound (by simp [Derived.ratios])
  have hfields : Keeps (fields? ratioNames) d.toJson ([n₁, n₂, n₃, n₄].map some) :=
    keeps_fields (by decide) rfl (.cons hw₁ (.cons hw₂ (.cons hw₃ (.cons hw₄ .nil))))
  obtain ⟨node, hwrites, hnode⟩ := hfields
  refine ⟨node, hwrites, ?_⟩
  unfold derivedOf?
  rw [hnode]
  simp [hr₁, hr₂, hr₃, hr₄]

/-- **Parameters** are read as themselves. -/
theorem keeps_params {m : NameMap Value} (h : ∀ p ∈ m.entries, p.2.Readable levelsBelow) :
    Keeps paramsOf? (.object m.entries) m := by
  obtain ⟨nodes, hwrites, hnodes⟩ := Json.exists_writes_object id fun p hp => (h p hp).keeps
  rw [List.map_id] at hwrites
  refine ⟨_, hwrites, ?_⟩
  show (Json.membersOfNodes? levelsBelow (namedNodes nodes) >>= fun ms => _) = _
  rw [Json.membersOfNodes?_eq hnodes]
  exact congrArg some m.ofList_entries

/-- **Counts by name** are read as themselves. -/
theorem keeps_readings {m : Readings} (h : ∀ c ∈ m.entries, c.2 ≤ maxLong) :
    Keeps readingsOf? (.object (m.entries.map fun (name, n) => (name, countValue n))) m := by
  obtain ⟨nodes, hwrites, hnodes⟩ := Json.exists_writes_object
    (fun c : String × Nat => (c.1, countValue c.2)) fun c hc => keeps_count (h c hc)
  have hcounts : nodes.mapM (fun n => (longOf? n.2).map (n.1, ·)) = some m.entries := by
    rw [mapM_eq_some_iff]
    refine hnodes.flip.imp fun n c hcount => ?_
    show (longOf? n.2).map (n.1, ·) = some c
    rw [hcount.2, hcount.1]
    rfl
  refine ⟨_, hwrites, ?_⟩
  show (memberNames? (namedNodes nodes) >>= fun members => _) = _
  rw [memberNames?_namedNodes]
  show (nodes.mapM (fun n => (longOf? n.2).map (n.1, ·)) >>= fun counts => _) = _
  rw [hcounts]
  exact congrArg some m.ofList_entries

/-! ### Summaries -/

/-- The kind of a summary stands in front of its fields, of which none is taken for it. -/
theorem Summary.read?_eq_ofFields? {members : List (List TextUnit × Node)}
    {content : List (String × Value)} {kind : String}
    (h : Json.membersOfNodes? levelsBelow members = some (("kernel", .text kind) :: content))
    (hnames : ∀ m ∈ content, m.1 ≠ "kernel") :
    Summary.read? (.object members) = Summary.ofFields? kind (.inl content) := by
  have hnone : content.filter (·.1 == "kernel") = [] := by
    rw [List.filter_eq_nil_iff]
    exact fun m hm heq => hnames m hm (beq_iff_eq.1 heq)
  have hall : content.filter (·.1 != "kernel") = content := by
    rw [List.filter_eq_self]
    exact fun m hm => bne_iff_ne.2 (hnames m hm)
  have hkind : field? (("kernel", Value.text kind) :: content) "kernel" =
      some (some (.text kind)) := by
    unfold field?
    rw [List.filter_cons, if_pos (beq_self_eq_true _), hnone]
  unfold Summary.read?
  dsimp only
  rw [h, Option.bind_eq_bind, Option.bind_some, hkind, Option.bind_eq_bind, Option.bind_some]
  dsimp only
  rw [List.filter_cons, if_neg (by simp), hall]

/-- **A summary** is read by its kind and its fields, given by the name, the number that is written
    and the one that is read of it. -/
theorem keeps_summary_of_fields {kind : String} {s : Summary}
    (fields : List (String × Number × Number)) (hread : ∀ f ∈ fields, f.2.1.readBack? = some f.2.2)
    (hnames : ∀ f ∈ fields, f.1 ≠ "kernel")
    (hs : Summary.ofFields? kind (.inl (fields.map fun f => (f.1, .number f.2.2))) = some s) :
    Keeps Summary.read?
      (.object (("kernel", .text kind) :: fields.map fun f => (f.1, .number f.2.1))) s := by
  -- The kind is one more field, which is read as it is written.
  have hkeeps : ∀ f ∈ ("kernel", Value.text kind, Value.text kind) ::
      fields.map (fun f => (f.1, Value.number f.2.1, Value.number f.2.2)),
      Keeps (Value.ofNode? levelsBelow) f.2.1 f.2.2 := by
    refine List.forall_mem_cons.2 ⟨Json.keeps_text kind, List.forall_mem_map.2 fun f hf => ?_⟩
    exact Json.keeps_number (hread f hf)
  obtain ⟨nodes, hwrites, hmembers⟩ := Json.exists_writes_members hkeeps
  rw [List.map_cons, List.map_map] at hwrites hmembers
  have hsummary := Summary.read?_eq_ofFields? hmembers (List.forall_mem_map.2 hnames)
  exact ⟨_, hwrites, hsummary.trans hs⟩

/-- **A summary** is read as itself. -/
theorem keeps_summary {s : Summary} (h : s.Readable) : Keeps Summary.read? s.toJson s := by
  cases s with
  | distances s =>
    obtain ⟨hdistance, hreachable, hnodes⟩ := h
    have hlong : s.maxDistance ≤ maxLong := hdistance.trans (by decide)
    refine keeps_summary_of_fields
      [("max_distance", .integer s.maxDistance, .integer s.maxDistance),
        ("reachable", .integer s.reachable, .integer s.reachable),
        ("num_nodes", .integer s.numNodes, .integer s.numNodes)] ?_ (by simp) ?_
    · simp [readBack?_count, hlong, hreachable, hnodes]
    · simp [Summary.ofFields?, summaryFields?, field?, numberOfValue?, countOf?_of_le, hdistance,
        hreachable, hnodes]
  | components s =>
    obtain ⟨hcomponents, hlargest⟩ := h
    refine keeps_summary_of_fields [("components", .integer s.components, .integer s.components),
      ("largest", .integer s.largest, .integer s.largest)] ?_ (by simp) ?_
    · simp [readBack?_count, hcomponents, hlargest]
    · simp [Summary.ofFields?, summaryFields?, field?, numberOfValue?, countOf?_of_le, hcomponents,
        hlargest]
  | ranks s =>
    obtain ⟨hmax, hsum⟩ := h
    obtain ⟨m, hm, hsingle⟩ := Option.map_eq_some_iff.1 hmax
    refine keeps_summary_of_fields [("max_rank", .single s.maxRank, m),
      ("rank_sum", .double s.rankSum, .double s.rankSum)] ?_ (by simp) ?_
    · simpa using ⟨hm, hsum⟩
    · simp [Summary.ofFields?, summaryFields?, field?, numberOfValue?, hsingle]
      rfl

/-! ### Records -/

/-- **A record** is read as itself. -/
theorem keeps_record {r : Record} (h : r.Readable) : Keeps Record.ofNode? r.toJson r := by
  obtain ⟨n₁, hw₁, hr₁⟩ := keeps_string r.benchmark
  obtain ⟨n₂, hw₂, hr₂⟩ := keeps_string r.input
  obtain ⟨n₃, hw₃, hr₃⟩ := keeps_params h.params
  obtain ⟨n₄, hw₄, hr₄⟩ := keeps_count h.numNodes
  obtain ⟨n₅, hw₅, hr₅⟩ := keeps_count h.numEdges
  obtain ⟨n₆, hw₆, hr₆⟩ := keeps_count h.threads
  obtain ⟨n₇, hw₇, hr₇⟩ := keeps_double h.elapsedSeconds
  obtain ⟨n₈, hw₈, hr₈⟩ := keeps_readings h.counters
  obtain ⟨n₉, hw₉, hr₉⟩ := keeps_derived h.derived
  obtain ⟨n₁₀, hw₁₀, hr₁₀⟩ := keeps_summary h.summary
  have hfields : Keeps (fields? fieldNames) r.toJson
      ([n₁, n₂, n₃, n₄, n₅, n₆, n₇, n₈, n₉, n₁₀].map some) :=
    keeps_fields (by decide) rfl (.cons hw₁ (.cons hw₂ (.cons hw₃ (.cons hw₄ (.cons hw₅ (.cons hw₆
      (.cons hw₇ (.cons hw₈ (.cons hw₉ (.cons hw₁₀ .nil))))))))))
  obtain ⟨node, hwrites, hnode⟩ := hfields
  refine ⟨node, hwrites, ?_⟩
  unfold Record.ofNode?
  rw [hnode]
  simp [hr₁, hr₂, hr₃, hr₄, hr₅, hr₆, hr₇, hr₈, hr₉, hr₁₀]
  rfl

/-- **The line of a record** is one line, and the record is read of it. -/
theorem Record.read?_render {r : Record} (h : r.Readable) :
    '\n' ∉ r.toJson.render ∧ Record.read? r.toJson.render = some r := by
  obtain ⟨node, hwrites, hnode⟩ := keeps_record h
  refine ⟨hwrites.newline_notMem, ?_⟩
  unfold Record.read?
  rw [hwrites.read?_eq, Option.bind_some, hnode]

end SparseGraph.Report
