import SparseGraph.Files.RecordFile
import SparseGraph.Proofs.Files.WrittenFiles
import SparseGraph.Proofs.Report.Records
import SparseGraph.Proofs.Text.Tokens

namespace SparseGraph.Files

open Json (Value)
open Report (Record)
open Store (extended)

/-!
# Record files that are appended to

A log grows by one line for each record, what was there stays in front, and each record is read of
its line. Nothing is lost in between: a file that was written once can be written again.

* `Store.Holds` — a file that can be written, and its contents;
* `Store.Holds.append` — what is appended stands behind the contents;
* `Content.EndsLine`, `Logged` — contents that end a line, and such contents with records behind;
* `appendRecords_logged` — records are appended one after another.
-/

variable {s : Store} {path more : String} {names : List String} {old content : Content}
  {records : List Record}

/-- The file at the path can be written and holds these contents. One that is not there holds no
    text. -/
def Store.Holds (s : Store) (path : String) (content : Content) : Prop :=
  ∃ names, s.target path = .ok names ∧ names ≠ nullFile ∧
    (s.get? names).getD (.text "") = content

/-! ### Where a file is to be written -/

namespace Store

/-- A file is to be written where its path leads, unless it is the path of a directory. -/
theorem target_eq_ok_iff :
    s.target path = .ok names ↔
      pathFault? path = none ∧ (splitStart path).2.getLast? ≠ some "" ∧ ∃ place,
        s.follow (.directory (splitStart path).1) (splitStart path).2 = .ok place ∧
          place.target = .ok names := by
  constructor
  · intro h
    obtain ⟨hfault, hplace⟩ := exists_follow_of_target h
    refine ⟨hfault, fun hlast => ?_, hplace⟩
    -- A path with a slash at its end is that of a directory, whatever is there.
    obtain ⟨parts, hparts⟩ := List.getLast?_eq_some_iff.1 hlast
    unfold target at h
    rw [hfault] at h
    dsimp only at h
    rw [hparts, List.reverse_concat] at h
    obtain ⟨place, _, hplace⟩ := bind_eq_ok_iff.1 h
    cases hplace
  · rintro ⟨hfault, hlast, hplace⟩
    unfold target
    rw [hfault]
    dsimp only
    split
    next hparts =>
      rw [List.reverse_eq_cons_iff] at hparts
      exact absurd (List.getLast?_eq_some_iff.2 ⟨_, hparts⟩) hlast
    next => exact bind_eq_ok_iff.2 hplace

/-- **A file that is put** can be put again. -/
theorem target_put (h : s.target path = .ok names) (hnull : names ≠ nullFile) :
    (s.put names content).target path = .ok names := by
  obtain ⟨hfault, hlast, place, hfollow, hplace⟩ := target_eq_ok_iff.1 h
  exact target_eq_ok_iff.2 ⟨hfault, hlast, _, follow_put hfollow hplace hnull, rfl⟩

theorem get?_put (hnull : names ≠ nullFile) : (s.put names content).get? names = some content := by
  unfold put get?
  rw [if_neg hnull]
  simp

/-! ### Contents with more behind them -/

theorem extended_extended (a b : String) (content : Content) :
    extended b (extended a content) = extended (a ++ b) content := by
  have hbytes : (a ++ b).toUTF8.data.toList = a.toUTF8.data.toList ++ b.toUTF8.data.toList := by
    show (a ++ b).toByteArray.data.toList = _
    rw [String.toByteArray_append, ByteArray.data_append, Array.toList_append]
    rfl
  cases content with
  | text chars =>
    show Content.text (chars ++ a ++ b) = .text (chars ++ (a ++ b))
    rw [String.append_assoc]
  | table t =>
    show Content.other (a.toUTF8.data.toList ++ b.toUTF8.data.toList) = .other _
    rw [hbytes]
  | other bytes =>
    show Content.other (bytes ++ a.toUTF8.data.toList ++ b.toUTF8.data.toList) = .other (bytes ++ _)
    rw [hbytes, List.append_assoc]

/-- **What is appended** stands behind the contents, and the file can be appended to again. -/
theorem Holds.append (h : s.Holds path content) (more : String) :
    ∃ s', s.append path more = .ok s' ∧ s'.Holds path (extended more content) ∧
      s'.read path = .ok (extended more content) := by
  obtain ⟨names, htarget, hnull, rfl⟩ := h
  -- A file that is made is one that held no text.
  have hcontent : ((s.get? names).map (extended more)).getD (.text more) =
      extended more ((s.get? names).getD (.text "")) := by
    cases s.get? names with
    | none => exact congrArg Content.text String.empty_append.symm
    | some content => rfl
  have hput : s.append path more =
      .ok (s.put names (extended more ((s.get? names).getD (.text "")))) := by
    unfold append
    rw [htarget, ← hcontent]
    rfl
  have hwrite : s.write path (extended more ((s.get? names).getD (.text ""))) =
      .ok (s.put names (extended more ((s.get? names).getD (.text "")))) := by
    unfold write
    rw [htarget]
    rfl
  refine ⟨_, hput, ⟨names, target_put htarget hnull, hnull, ?_⟩, read_of_write hwrite ?_⟩
  · rw [get?_put hnull]
    rfl
  · obtain ⟨_, place, hfollow, hplace⟩ := exists_follow_of_target htarget
    rwa [← show names = Files.place path from (follow_target hfollow hplace).1]

end Store

/-! ### Records -/

/-- The contents are empty or end a line. -/
def Content.EndsLine : Content → Prop
  | .text chars => ∀ c ∈ chars.toList.getLast?, c = '\n'
  | .table _ => False
  | .other bytes => ∀ b ∈ bytes.getLast?, b = 10

/-- The contents `new` are `old` with a line behind for each record, of which the record is read. -/
structure Logged (old new : Content) (lines : List (List Char)) (records : List Record) : Prop where
  extended_eq : new = extended (String.ofList (lines.flatMap (· ++ ['\n']))) old
  read : List.Forall₂ (fun line r => '\n' ∉ line ∧ Record.read? line = some r) lines records
  /-- A text has its lines and these. -/
  lines_eq : ∀ chars, old = .text chars → ∃ chars', new = .text chars' ∧
    Text.lines chars'.toList = (Text.lines chars.toList).dropLast ++ lines ++ [[]]

/-- The line of a record is added. -/
theorem exists_appendRecord (h : s.Holds path content) (r : Record) :
    ∃ s', appendRecord s path r = .ok s' ∧ s'.Holds path (extended (String.ofList r.line) content) ∧
      s'.read path = .ok (extended (String.ofList r.line) content) := by
  obtain ⟨s', happend, hholds, hread⟩ := h.append (String.ofList r.line)
  refine ⟨s', ?_, hholds, hread⟩
  unfold appendRecord
  rw [happend]
  rfl

/-- The lines of records are added one after another. -/
theorem exists_appendRecords (h : s.Holds path old) (hbase : extended "" old = old)
    (records : List Record) :
    ∃ after, records.foldlM (appendRecord · path ·) s = .ok after ∧
      after.Holds path (extended (String.ofList (records.flatMap Record.line)) old) ∧
      (records ≠ [] →
        after.read path = .ok (extended (String.ofList (records.flatMap Record.line)) old)) := by
  -- Induction on the records for any contents, since the first one leaves its line behind them.
  induction records generalizing s old with
  | nil =>
    refine ⟨s, rfl, ?_, fun hne => absurd rfl hne⟩
    rw [List.flatMap_nil]
    exact hbase.symm ▸ h
  | cons r records ih =>
    obtain ⟨s', happend, hholds, hread⟩ := exists_appendRecord h r
    obtain ⟨after, hafter, hholdsAfter, hreadAfter⟩ := ih hholds (by
      rw [Store.extended_extended, String.append_empty])
    rw [Store.extended_extended, ← String.ofList_append, ← List.flatMap_cons]
      at hholdsAfter hreadAfter
    refine ⟨after, ?_, hholdsAfter, fun _ => ?_⟩
    · rw [List.foldlM_cons, happend]
      exact hafter
    · cases records with
      | nil =>
        -- This record was the last one, so what was read after it is what is read in the end.
        cases hafter
        rw [hread, List.flatMap_cons, List.flatMap_nil, List.append_nil]
      | cons r' records => exact hreadAfter (List.cons_ne_nil _ _)

/-- Contents that end a line are not changed if nothing is put behind them. -/
theorem extended_empty (h : old.EndsLine) : extended "" old = old := by
  cases old with
  | text chars => exact congrArg Content.text String.append_empty
  | table t => exact h.elim
  | other bytes => exact congrArg Content.other (List.append_nil bytes)

/-- **A log is faithful.** Records that are appended to contents that end a line, whatever their
    strings hold, leave these in front and add one line each, of which the record is read. -/
theorem appendRecords_logged (hold : s.Holds path old) (hends : old.EndsLine)
    (hrecords : ∀ r ∈ records, r.Readable) :
    ∃ after new lines, records.foldlM (appendRecord · path ·) s = .ok after ∧
      after.Holds path new ∧ (records ≠ [] → after.read path = .ok new) ∧
      Logged old new lines records := by
  have hread : ∀ r ∈ records, '\n' ∉ r.toJson.render ∧ Record.read? r.toJson.render = some r :=
    fun r hr => Report.Record.read?_render (hrecords r hr)
  have hlines : (records.map fun r => r.toJson.render).flatMap (· ++ ['\n']) =
      records.flatMap Record.line := by
    rw [List.flatMap_map]
    rfl
  have hlogged : Logged old (extended (String.ofList (records.flatMap Record.line)) old)
      (records.map fun r => r.toJson.render) records := by
    refine ⟨by rw [hlines], ?_, ?_⟩
    · rw [List.forall₂_map_left_iff, List.forall₂_same]
      exact hread
    · rintro chars rfl
      refine ⟨_, rfl, ?_⟩
      rw [String.toList_append, String.toList_ofList, ← hlines]
      exact Text.lines_append_flatMap hends (List.forall_mem_map.2 fun r hr => (hread r hr).1)
  obtain ⟨after, hafter, hholds, hreadAfter⟩ :=
    exists_appendRecords hold (extended_empty hends) records
  exact ⟨after, _, _, hafter, hholds, hreadAfter, hlogged⟩

/-! ### Strings that need escapes -/

/-- A record with every kind of parameter, whose strings need every kind of escape. -/
def noisyRecord : Record where
  benchmark := "p\"r\\\n"
  input := "a\u0001\tb\u007f\u2028"
  params := ⟨[("flags\r\n", .array [.null, .bool true, .number (.double 0.25), .text "\u001f"]),
    ("rounds", .number (.integer (-3)))], by decide⟩
  numNodes := 5
  numEdges := 7
  threads := 2
  elapsedSeconds := 0.125
  counters := ⟨[("\n", Text.maxLong), ("cycles", 0)], by decide⟩
  derived := ⟨some 1.5, none, none, some 12.5⟩
  summary := .ranks ⟨0.375, 1⟩

theorem readable_noisyRecord : noisyRecord.Readable where
  params := by
    have hflags : Value.Readable Report.levelsBelow
        (.array [.null, .bool true, .number (.double 0.25), .text "\u001f"]) := by
      refine .array ?_
      simp only [List.forall_mem_cons]
      exact ⟨.null, .bool true, .double (by decide +kernel), .text _, List.forall_mem_nil _⟩
    exact List.forall_mem_cons.2 ⟨hflags,
      List.forall_mem_cons.2 ⟨.integer (by decide) (by decide), List.forall_mem_nil _⟩⟩
  numNodes := by decide
  numEdges := by decide
  threads := by decide
  elapsedSeconds := by decide +kernel
  counters := by decide
  derived := by
    intro x hx
    have hvalues : x = 1.5 ∨ x = 12.5 := by simpa [noisyRecord, Report.Derived.ratios] using hx
    rcases hvalues with rfl | rfl
    · decide +kernel
    · decide +kernel
  summary := by
    show Json.SingleReadsBack 0.375 ∧ Json.ReadsBack 1
    decide +kernel

/-- The general theorem for this record, appended twice. -/
theorem appendRecords_logged_noisy :
    Store.Holds ⟨[(["runs.jsonl"], .text "old\n")], []⟩ "runs.jsonl" (.text "old\n") ∧
      (Content.text "old\n").EndsLine ∧ (∀ r ∈ [noisyRecord, noisyRecord], r.Readable) ∧
      ∃ after new lines, [noisyRecord, noisyRecord].foldlM (appendRecord · "runs.jsonl" ·)
          ⟨[(["runs.jsonl"], .text "old\n")], []⟩ = .ok after ∧
        after.read "runs.jsonl" = .ok new ∧
        Logged (.text "old\n") new lines [noisyRecord, noisyRecord] := by
  have hold : Store.Holds ⟨[(["runs.jsonl"], .text "old\n")], []⟩ "runs.jsonl" (.text "old\n") :=
    ⟨["runs.jsonl"], rfl, by decide, rfl⟩
  have hends : (Content.text "old\n").EndsLine := by
    unfold Content.EndsLine
    simp
  have hrecords : ∀ r ∈ [noisyRecord, noisyRecord], r.Readable :=
    List.forall_mem_cons.2 ⟨readable_noisyRecord,
      List.forall_mem_cons.2 ⟨readable_noisyRecord, List.forall_mem_nil _⟩⟩
  obtain ⟨after, new, lines, hafter, _, hread, hlogged⟩ := appendRecords_logged hold hends hrecords
  exact ⟨hold, hends, hrecords, after, new, lines, hafter, hread (List.cons_ne_nil _ _), hlogged⟩

end SparseGraph.Files
