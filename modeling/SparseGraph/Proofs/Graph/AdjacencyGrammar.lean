import Mathlib.Data.List.Forall2
import SparseGraph.Graph.AdjacencyText
import SparseGraph.Proofs.Fallible
import SparseGraph.Proofs.Graph.Parts
import SparseGraph.Proofs.Text.Tokens

namespace SparseGraph.Graph

open Text (Token Denotes Tokenized tokens readWord)

/-!
# The grammar of adjacency texts

What an adjacency text says and what is wrong with it, told by its tokens alone and not by how they
are read.

* `Spells` — tokens that begin with a header, two counts and the numbers that these announce;
* `FirstFault` — what is wrong with the first token that does not fit the role it is needed in;
* `ofAdjacencyText_eq_ok_iff` — the graph of a text has the arrays that its tokens spell;
* `ofAdjacencyText_eq_error_iff` — a fault of a text is the first one among its tokens, and if every
  token fits it is a fault of the arrays;
* `Consistent`, `exists_graph_iff` — which arrays, once spelled, are those of a graph;
* `ofAdjacencyText_grammar` — which texts are accepted, with what result, and why others are not.
-/

/-! ### What tokens spell -/

/-- Tokens that are numerals of `count` numbers, in order. -/
def Numerals (count : Nat) (ts : List Token) (numbers : List UInt32) : Prop :=
  numbers.length = count ∧ List.Forall₂ (fun t w => Denotes t.text w.toNat) ts numbers

/-- Tokens that stand for the weights of `count` edges: numerals, or no tokens at all and weights
    of 1. -/
def SpellsWeights (weighted : Bool) (count : Nat) (ts : List Token) (weights : List UInt32) : Prop :=
  if weighted then Numerals count ts weights else ts = [] ∧ weights = List.replicate count 1

/-- Tokens that begin with a header, a number of vertices and a number of edges, and those behind. -/
def SpellsHead (ts : List Token) (weighted : Bool) (n m : UInt32) (rest : List Token) : Prop :=
  ∃ header vertexCount edgeCount, ts = header :: vertexCount :: edgeCount :: rest ∧
    header.text = headerWord weighted ∧ Denotes vertexCount.text n.toNat ∧
    Denotes edgeCount.text m.toNat

/-- Tokens that begin with `n` offsets, `m` targets and, under the weighted header, `m` weights. -/
def SpellsNumbers (weighted : Bool) (n m : UInt32) (ts : List Token)
    (offsets targets weights : List UInt32) : Prop :=
  ∃ offsetTokens targetTokens weightTokens rest,
    ts = offsetTokens ++ (targetTokens ++ (weightTokens ++ rest)) ∧
    Numerals n.toNat offsetTokens offsets ∧ Numerals m.toNat targetTokens targets ∧
    SpellsWeights weighted m.toNat weightTokens weights

/-- Tokens that begin with an adjacency text for `n` vertices and `m` edges. Tokens behind it are not
    looked at. -/
def Spells (ts : List Token) (n m : UInt32) (offsets targets weights : List UInt32) : Prop :=
  ∃ weighted rest, SpellsHead ts weighted n m rest ∧
    SpellsNumbers weighted n m rest offsets targets weights

/-! ### What is wrong with tokens -/

/-- The roles of the tokens that every text needs first. -/
def headRoles : List Role :=
  [.header, .vertexCount, .edgeCount]

/-- The roles of the tokens for weights. -/
def weightRoles (weighted : Bool) (count : Nat) : List Role :=
  if weighted then List.replicate count .edgeWeight else []

/-- The roles of the tokens that this header and these counts announce, in order. -/
def numberRoles (weighted : Bool) (n m : UInt32) : List Role :=
  List.replicate n.toNat .offset ++
    (List.replicate m.toNat .edgeTarget ++ weightRoles weighted m.toNat)

/-- Whether a word is right for a role in a text with this header and these counts. -/
def Fits (weighted : Bool) (n m : UInt32) (role : Role) (word : List Char) : Prop :=
  match role with
  | .header => word = headerWord weighted
  | .vertexCount => Denotes word n.toNat
  | .edgeCount => Denotes word m.toNat
  | _ => ∃ w : UInt32, Denotes word w.toNat

/-- What is wrong with tokens where one of this role is needed: there is none, the first one is no
    header, or it is no numeral of a 32-bit number. -/
inductive Fault (role : Role) : List Token → GraphError → Prop
  | missing : Fault role [] (.unexpectedEnd role)
  | unknown {t : Token} {rest : List Token} (hrole : role = .header)
      (hword : ∀ weighted, t.text ≠ headerWord weighted) :
      Fault role (t :: rest) (.unknownHeader t.text)
  | bad {t : Token} {rest : List Token} (hrole : role ≠ .header)
      (hword : ∀ w : UInt32, ¬ Denotes t.text w.toNat) :
      Fault role (t :: rest) (.badToken t.line t.text role)

/-- The fault of the first token that does not fit, where tokens of these roles are needed. -/
def FaultAmong (fits : Role → List Char → Prop) (roles : List Role) (ts : List Token)
    (e : GraphError) : Prop :=
  ∃ done role later good rest, roles = done ++ role :: later ∧ ts = good ++ rest ∧
    List.Forall₂ (fun role t => fits role t.text) done good ∧ Fault role rest e

/-- The fault of the first token of a text that does not fit. The tokens before it tell which roles
    are needed. -/
def FirstFault (ts : List Token) (e : GraphError) : Prop :=
  ∃ weighted n m, FaultAmong (Fits weighted n m) (headRoles ++ numberRoles weighted n m) ts e

section
variable {fits fits' : Role → List Char → Prop} {role : Role} {roles first second : List Role}
  {t : Token} {ts rest : List Token} {e : GraphError}

theorem not_faultAmong_nil : ¬ FaultAmong fits [] ts e := by
  rintro ⟨done, role, later, _, _, hroles, _⟩
  exact absurd hroles (by simp)

/-- The first of several needed tokens is at fault, or it fits and the fault is among the others. -/
theorem faultAmong_cons :
    FaultAmong fits (role :: roles) ts e ↔
      Fault role ts e ∨ ∃ t rest, ts = t :: rest ∧ fits role t.text ∧ FaultAmong fits roles rest e := by
  constructor
  · rintro ⟨done, role', later, good, rest, hroles, rfl, hgood, hfault⟩
    cases hgood with
    | nil =>
      obtain ⟨rfl, _⟩ := List.cons.inj hroles
      exact .inl hfault
    | @cons _ t done good hfits hgood =>
      obtain ⟨rfl, rfl⟩ := List.cons.inj hroles
      exact .inr ⟨t, good ++ rest, rfl, hfits, done, role', later, good, rest, rfl, rfl, hgood, hfault⟩
  · rintro (hfault | ⟨t, ts, rfl, hfits, done, role', later, good, rest, rfl, rfl, hgood, hfault⟩)
    · exact ⟨[], role, roles, [], ts, rfl, rfl, .nil, hfault⟩
    · exact ⟨role :: done, role', later, t :: good, rest, rfl, rfl, .cons hfits hgood, hfault⟩

/-- The fault is among the tokens needed first, or these fit and it is among the others. -/
theorem faultAmong_append :
    FaultAmong fits (first ++ second) ts e ↔
      FaultAmong fits first ts e ∨ ∃ good rest, ts = good ++ rest ∧
        List.Forall₂ (fun role t => fits role t.text) first good ∧ FaultAmong fits second rest e := by
  induction first generalizing ts with
  | nil =>
    constructor
    · intro h
      exact .inr ⟨[], ts, rfl, .nil, h⟩
    · rintro (h | ⟨good, rest, rfl, hgood, h⟩)
      · exact absurd h not_faultAmong_nil
      · cases hgood
        exact h
  | cons role first ih =>
    rw [List.cons_append, faultAmong_cons, faultAmong_cons]
    constructor
    · rintro (h | ⟨t, rest, rfl, hfits, h⟩)
      · exact .inl (.inl h)
      · rcases ih.1 h with h | ⟨good, rest, rfl, hgood, h⟩
        · exact .inl (.inr ⟨t, rest, rfl, hfits, h⟩)
        · exact .inr ⟨t :: good, rest, rfl, .cons hfits hgood, h⟩
    · rintro ((h | ⟨t, rest, rfl, hfits, h⟩) | ⟨good, rest, rfl, hgood, h⟩)
      · exact .inl h
      · exact .inr ⟨t, rest, rfl, hfits, ih.2 (.inl h)⟩
      · cases hgood with
        | @cons _ t _ good hfits hgood =>
          exact .inr ⟨t, good ++ rest, rfl, hfits, ih.2 (.inr ⟨good, rest, rfl, hgood, h⟩)⟩

end

/-! ### Reading one token -/

variable {weighted : Bool} {n m : UInt32} {role : Role} {count : Nat} {ts rest : List Token}
  {w : UInt32} {ws : List UInt32} {e : GraphError}

theorem takeHeader_eq_ok_iff :
    takeHeader ts = .ok (weighted, rest) ↔ ∃ t, ts = t :: rest ∧ t.text = headerWord weighted := by
  cases ts with
  | nil => simp [takeHeader]
  | cons t ts =>
    simp only [takeHeader, List.cons.injEq]
    constructor
    · intro h
      split at h
      next hfalse =>
        cases h
        exact ⟨t, ⟨rfl, rfl⟩, hfalse⟩
      next =>
        split at h
        next htrue =>
          cases h
          exact ⟨t, ⟨rfl, rfl⟩, htrue⟩
        next => cases h
    · rintro ⟨t, ⟨rfl, rfl⟩, htext⟩
      rw [htext]
      cases weighted
      · rw [if_pos rfl]
      · rw [if_neg (by decide), if_pos rfl]

theorem takeHeader_eq_error_iff : takeHeader ts = .error e ↔ Fault .header ts e := by
  cases ts with
  | nil =>
    constructor
    · intro h
      cases h
      exact .missing
    · intro h
      cases h
      rfl
  | cons t ts =>
    simp only [takeHeader]
    constructor
    · intro h
      split at h
      · cases h
      next hfalse =>
        split at h
        · cases h
        next htrue =>
          cases h
          refine .unknown rfl ?_
          intro weighted
          cases weighted
          · exact hfalse
          · exact htrue
    · intro h
      cases h with
      | unknown _ hword => rw [if_neg (hword false), if_neg (hword true)]
      | bad hrole _ => exact absurd rfl hrole

theorem takeWord_eq_ok_iff :
    takeWord role ts = .ok (w, rest) ↔ ∃ t, ts = t :: rest ∧ Denotes t.text w.toNat := by
  cases ts with
  | nil => simp [takeWord]
  | cons t ts =>
    simp only [takeWord, List.cons.injEq, ← Text.readWord_eq_ok_iff]
    constructor
    · intro h
      split at h
      next v hread =>
        cases h
        exact ⟨t, ⟨rfl, rfl⟩, hread⟩
      next => cases h
    · rintro ⟨t, ⟨rfl, rfl⟩, hread⟩
      rw [hread]

theorem takeWord_eq_error_iff (hrole : role ≠ .header) :
    takeWord role ts = .error e ↔ Fault role ts e := by
  cases ts with
  | nil =>
    constructor
    · intro h
      cases h
      exact .missing
    · intro h
      cases h
      rfl
  | cons t ts =>
    simp only [takeWord]
    constructor
    · intro h
      split at h
      · cases h
      next hread =>
        cases h
        refine .bad hrole ?_
        intro w hw
        rw [Text.readWord_eq_ok_iff.2 hw] at hread
        cases hread
    · intro h
      cases h with
      | unknown hheader _ => exact absurd hheader hrole
      | bad _ hword =>
        split
        next w hread => exact absurd (Text.readWord_eq_ok_iff.1 hread) (hword w)
        next => rfl

/-! ### Reading a section -/

theorem takeWords_succ :
    takeWords role (count + 1) ts = (do
      let (w, ts) ← takeWord role ts
      let (ws, ts) ← takeWords role count ts
      return (w :: ws, ts)) := by
  rw [takeWords]
  cases takeWord role ts with
  | error e => rfl
  | ok r =>
    dsimp only
    cases h : takeWords role count r.2 with
    | error e => simp [bind, Except.bind, h]
    | ok r' => simp [bind, Except.bind, pure, Except.pure, h]

/-- **A section is read** if its tokens are numerals. -/
theorem takeWords_eq_ok_iff :
    takeWords role count ts = .ok (ws, rest) ↔ ∃ good, ts = good ++ rest ∧ Numerals count good ws := by
  -- The induction is on what is still needed; the tokens may run out before.
  induction count generalizing ts ws rest with
  | zero =>
    simp only [takeWords, Except.ok.injEq, Prod.mk.injEq, Numerals, List.length_eq_zero_iff]
    constructor
    · rintro ⟨rfl, rfl⟩
      exact ⟨[], rfl, rfl, .nil⟩
    · rintro ⟨good, rfl, rfl, hgood⟩
      cases hgood
      exact ⟨rfl, rfl⟩
  | succ count ih =>
    simp only [takeWords_succ, bind_eq_ok_iff, Prod.exists, takeWord_eq_ok_iff, ih, Numerals]
    constructor
    · rintro ⟨w, ts, ⟨t, rfl, hw⟩, ws', rest', ⟨good, rfl, hlen, hgood⟩, heq⟩
      cases heq
      exact ⟨t :: good, rfl, by rw [List.length_cons, hlen], .cons hw hgood⟩
    · rintro ⟨good, rfl, hlen, hgood⟩
      cases hgood with
      | nil => cases hlen
      | @cons t w good ws hw hgood =>
        exact ⟨w, good ++ rest, ⟨t, rfl, hw⟩, ws, rest, ⟨good, rfl, Nat.succ.inj hlen, hgood⟩, rfl⟩

/-- **A section is refused** because of the first token in it that is missing or no numeral. -/
theorem takeWords_eq_error_iff {fits : Role → List Char → Prop} (hrole : role ≠ .header)
    (hfits : ∀ word, fits role word ↔ ∃ w : UInt32, Denotes word w.toNat) :
    takeWords role count ts = .error e ↔ FaultAmong fits (List.replicate count role) ts e := by
  induction count generalizing ts with
  | zero =>
    simp only [takeWords, reduceCtorEq, false_iff]
    exact not_faultAmong_nil
  | succ count ih =>
    rw [List.replicate_succ, faultAmong_cons]
    simp only [takeWords_succ, bind_eq_error_iff, Prod.exists, takeWord_eq_error_iff hrole,
      takeWord_eq_ok_iff, ih, hfits]
    -- Both sides blame the first token first, so only what follows a good one is to be compared.
    refine or_congr_right ?_
    constructor
    · rintro ⟨w, ts, ⟨t, rfl, hw⟩, h | ⟨ws, rest, _, h⟩⟩
      · exact ⟨t, ts, rfl, ⟨w, hw⟩, h⟩
      · cases h
    · rintro ⟨t, ts, rfl, ⟨w, hw⟩, h⟩
      exact ⟨w, ts, ⟨t, rfl, hw⟩, .inl h⟩

/-- Tokens that fit one role are numerals. -/
theorem exists_numerals_iff {fits : Role → List Char → Prop}
    (hfits : ∀ word, fits role word ↔ ∃ w : UInt32, Denotes word w.toNat) :
    List.Forall₂ (fun role t => fits role t.text) (List.replicate count role) ts ↔
      ∃ ws, Numerals count ts ws := by
  induction count generalizing ts with
  | zero =>
    simp only [List.replicate_zero, List.forall₂_nil_left_iff, Numerals, List.length_eq_zero_iff]
    constructor
    · rintro rfl
      exact ⟨[], rfl, .nil⟩
    · rintro ⟨ws, rfl, h⟩
      cases h
      rfl
  | succ count ih =>
    rw [List.replicate_succ]
    constructor
    · intro h
      cases h with
      | @cons _ t _ ts ht hts =>
        obtain ⟨w, hw⟩ := (hfits _).1 ht
        obtain ⟨ws, hlen, hws⟩ := ih.1 hts
        exact ⟨w :: ws, by rw [List.length_cons, hlen], .cons hw hws⟩
    · rintro ⟨ws, hlen, hws⟩
      cases hws with
      | nil => cases hlen
      | @cons t w ts ws hw hws =>
        exact .cons ((hfits _).2 ⟨w, hw⟩) (ih.2 ⟨ws, Nat.succ.inj hlen, hws⟩)

/-! ### Reading the weights -/

theorem takeWeights_eq_ok_iff :
    (if weighted then takeWords .edgeWeight count ts else .ok (List.replicate count 1, ts)) =
        .ok (ws, rest) ↔
      ∃ good, ts = good ++ rest ∧ SpellsWeights weighted count good ws := by
  unfold SpellsWeights
  cases weighted with
  | true => exact takeWords_eq_ok_iff
  | false =>
    constructor
    · intro h
      cases h
      exact ⟨[], rfl, rfl, rfl⟩
    · rintro ⟨good, rfl, rfl, rfl⟩
      rfl

theorem takeWeights_eq_error_iff {fits : Role → List Char → Prop}
    (hfits : ∀ word, fits .edgeWeight word ↔ ∃ w : UInt32, Denotes word w.toNat) :
    (if weighted then takeWords .edgeWeight count ts else .ok (List.replicate count 1, ts)) =
        .error e ↔
      FaultAmong fits (weightRoles weighted count) ts e := by
  unfold weightRoles
  cases weighted with
  | true => exact takeWords_eq_error_iff (by decide) hfits
  | false =>
    constructor
    · intro h
      cases h
    · intro h
      exact absurd h not_faultAmong_nil

/-! ### Reading a text in two steps -/

/-- Read the header and the counts. -/
def takeHead (ts : List Token) : Except GraphError (Bool × UInt32 × UInt32 × List Token) := do
  let (weighted, ts) ← takeHeader ts
  let (n, ts) ← takeWord .vertexCount ts
  let (m, ts) ← takeWord .edgeCount ts
  return (weighted, n, m, ts)

/-- Read the numbers that a header and counts announce. -/
def takeNumbers (weighted : Bool) (n m : UInt32) (ts : List Token) :
    Except GraphError (List UInt32 × List UInt32 × List UInt32) := do
  let (offsets, ts) ← takeWords .offset n.toNat ts
  let (targets, ts) ← takeWords .edgeTarget m.toNat ts
  let (weights, _) ←
    if weighted then takeWords .edgeWeight m.toNat ts
    else .ok (List.replicate m.toNat 1, ts)
  return (offsets, targets, weights)

/-- A text is read in two steps, and then the arrays are put together. -/
theorem ofAdjacencyText_eq (text : List Char) :
    ofAdjacencyText text = takeHead (tokens text) >>= fun (weighted, n, m, ts) =>
      takeNumbers weighted n m ts >>= fun (offsets, targets, weights) =>
        ofParts (offsets ++ [m]).toArray targets.toArray weights.toArray := by
  unfold ofAdjacencyText takeHead takeNumbers
  simp only [ite_bind_bind, bind_assoc, pure_bind]

theorem takeHead_eq_ok_iff :
    takeHead ts = .ok (weighted, n, m, rest) ↔ SpellsHead ts weighted n m rest := by
  unfold takeHead SpellsHead
  simp only [bind_eq_ok_iff, Prod.exists, takeHeader_eq_ok_iff, takeWord_eq_ok_iff]
  constructor
  · rintro ⟨_, _, ⟨header, rfl, hheader⟩, _, _, ⟨vertexCount, rfl, hn⟩, _, _, ⟨edgeCount, rfl, hm⟩,
      hresult⟩
    cases hresult
    exact ⟨header, vertexCount, edgeCount, rfl, hheader, hn, hm⟩
  · rintro ⟨header, vertexCount, edgeCount, rfl, hheader, hn, hm⟩
    exact ⟨weighted, _, ⟨header, rfl, hheader⟩, n, _, ⟨vertexCount, rfl, hn⟩, m, _,
      ⟨edgeCount, rfl, hm⟩, rfl⟩

/-- **Why a head is refused:** one of its three tokens does not fit. Counts that are not reached do
    not matter. -/
theorem takeHead_eq_error_iff :
    takeHead ts = .error e ↔ ∃ weighted n m, FaultAmong (Fits weighted n m) headRoles ts e := by
  unfold takeHead headRoles
  simp only [bind_eq_error_iff, Prod.exists, takeHeader_eq_error_iff, takeHeader_eq_ok_iff,
    takeWord_eq_error_iff (show Role.vertexCount ≠ .header by decide),
    takeWord_eq_error_iff (show Role.edgeCount ≠ .header by decide), takeWord_eq_ok_iff,
    faultAmong_cons, not_faultAmong_nil, and_false, exists_false, or_false]
  constructor
  · rintro (h | ⟨weighted, _, ⟨header, rfl, hheader⟩, h | ⟨n, _, ⟨vertexCount, rfl, hn⟩,
      h | ⟨_, _, _, h⟩⟩⟩)
    -- What has not been read can be anything, so 0 will do.
    · exact ⟨false, 0, 0, .inl h⟩
    · exact ⟨weighted, 0, 0, .inr ⟨header, _, rfl, hheader, .inl h⟩⟩
    · exact ⟨weighted, n, 0, .inr ⟨header, _, rfl, hheader, .inr ⟨vertexCount, _, rfl, hn, h⟩⟩⟩
    · cases h
  · rintro ⟨weighted, n, m, h | ⟨header, _, rfl, hheader, h | ⟨vertexCount, _, rfl, hn, h⟩⟩⟩
    · exact .inl h
    · exact .inr ⟨weighted, _, ⟨header, rfl, hheader⟩, .inl h⟩
    · exact .inr ⟨weighted, _, ⟨header, rfl, hheader⟩, .inr
        ⟨n, _, ⟨vertexCount, rfl, hn⟩, .inl h⟩⟩

theorem takeNumbers_eq_ok_iff {offsets targets weights : List UInt32} :
    takeNumbers weighted n m ts = .ok (offsets, targets, weights) ↔
      SpellsNumbers weighted n m ts offsets targets weights := by
  unfold takeNumbers SpellsNumbers
  simp only [ite_bind_bind, bind_eq_ok_iff, Prod.exists, takeWords_eq_ok_iff, takeWeights_eq_ok_iff]
  constructor
  · rintro ⟨_, _, ⟨offsetTokens, rfl, hoffsets⟩, _, _, ⟨targetTokens, rfl, htargets⟩, _, rest,
      ⟨weightTokens, rfl, hweights⟩, hresult⟩
    cases hresult
    exact ⟨offsetTokens, targetTokens, weightTokens, rest, rfl, hoffsets, htargets, hweights⟩
  · rintro ⟨offsetTokens, targetTokens, weightTokens, rest, rfl, hoffsets, htargets, hweights⟩
    exact ⟨offsets, _, ⟨offsetTokens, rfl, hoffsets⟩, targets, _, ⟨targetTokens, rfl, htargets⟩,
      weights, rest, ⟨weightTokens, rfl, hweights⟩, rfl⟩

/-- **Why the numbers are refused:** one of the announced tokens is missing or no numeral. -/
theorem takeNumbers_eq_error_iff :
    takeNumbers weighted n m ts = .error e ↔
      FaultAmong (Fits weighted n m) (numberRoles weighted n m) ts e := by
  -- A number of any role is a numeral of some word, whatever the header and the counts.
  have hoffset : ∀ word, Fits weighted n m .offset word ↔ ∃ w : UInt32, Denotes word w.toNat :=
    fun _ => .rfl
  have htarget : ∀ word, Fits weighted n m .edgeTarget word ↔ ∃ w : UInt32, Denotes word w.toNat :=
    fun _ => .rfl
  have hweight : ∀ word, Fits weighted n m .edgeWeight word ↔ ∃ w : UInt32, Denotes word w.toNat :=
    fun _ => .rfl
  unfold takeNumbers numberRoles
  simp only [ite_bind_bind, bind_eq_error_iff, Prod.exists, takeWords_eq_ok_iff,
    takeWords_eq_error_iff (by decide) hoffset, takeWords_eq_error_iff (by decide) htarget,
    takeWeights_eq_error_iff hweight, faultAmong_append, exists_numerals_iff hoffset,
    exists_numerals_iff htarget]
  constructor
  · rintro (h | ⟨offsets, _, ⟨offsetTokens, rfl, hoffsets⟩, h | ⟨targets, _,
      ⟨targetTokens, rfl, htargets⟩, h | ⟨_, _, _, h⟩⟩⟩)
    · exact .inl h
    · exact .inr ⟨offsetTokens, _, rfl, ⟨offsets, hoffsets⟩, .inl h⟩
    · exact .inr ⟨offsetTokens, _, rfl, ⟨offsets, hoffsets⟩, .inr
        ⟨targetTokens, _, rfl, ⟨targets, htargets⟩, h⟩⟩
    · cases h
  · rintro (h | ⟨offsetTokens, _, rfl, ⟨offsets, hoffsets⟩, h | ⟨targetTokens, _, rfl,
      ⟨targets, htargets⟩, h⟩⟩)
    · exact .inl h
    · exact .inr ⟨offsets, _, ⟨offsetTokens, rfl, hoffsets⟩, .inl h⟩
    · exact .inr ⟨offsets, _, ⟨offsetTokens, rfl, hoffsets⟩, .inr
        ⟨targets, _, ⟨targetTokens, rfl, htargets⟩, .inl h⟩⟩

/-- The first fault of a text is in its head, or among the numbers that the head announces. -/
theorem firstFault_iff :
    FirstFault ts e ↔ (∃ weighted n m, FaultAmong (Fits weighted n m) headRoles ts e) ∨
      ∃ weighted n m rest, SpellsHead ts weighted n m rest ∧
        FaultAmong (Fits weighted n m) (numberRoles weighted n m) rest e := by
  unfold FirstFault
  simp only [faultAmong_append]
  constructor
  · rintro ⟨weighted, n, m, h | ⟨good, rest, rfl, hgood, h⟩⟩
    · exact .inl ⟨weighted, n, m, h⟩
    · -- Tokens that fit the first three roles are a header and two counts.
      obtain ⟨header, _, hheader, hcounts, rfl⟩ := List.forall₂_cons_left_iff.1 hgood
      obtain ⟨vertexCount, _, hn, hcount, rfl⟩ := List.forall₂_cons_left_iff.1 hcounts
      obtain ⟨edgeCount, _, hm, hnone, rfl⟩ := List.forall₂_cons_left_iff.1 hcount
      cases hnone
      exact .inr ⟨weighted, n, m, rest, ⟨header, vertexCount, edgeCount, rfl, hheader, hn, hm⟩, h⟩
  · rintro (⟨weighted, n, m, h⟩ | ⟨weighted, n, m, rest,
      ⟨header, vertexCount, edgeCount, rfl, hheader, hn, hm⟩, h⟩)
    · exact ⟨weighted, n, m, .inl h⟩
    · exact ⟨weighted, n, m, .inr ⟨[header, vertexCount, edgeCount], rest, rfl,
        .cons hheader (.cons hn (.cons hm .nil)), h⟩⟩

/-! ### Reading a text -/

variable {text : List Char} {g : Graph}

/-- **The graph of a text** is the graph of the arrays that its tokens spell. -/
theorem ofAdjacencyText_eq_ok_iff :
    ofAdjacencyText text = .ok g ↔
      ∃ n m offsets targets weights, Spells (tokens text) n m offsets targets weights ∧
        ofParts (offsets ++ [m]).toArray targets.toArray weights.toArray = .ok g := by
  simp only [ofAdjacencyText_eq, bind_eq_ok_iff, Prod.exists, takeHead_eq_ok_iff,
    takeNumbers_eq_ok_iff, Spells]
  constructor
  · rintro ⟨weighted, n, m, rest, hhead, offsets, targets, weights, hnumbers, hparts⟩
    exact ⟨n, m, offsets, targets, weights, ⟨weighted, rest, hhead, hnumbers⟩, hparts⟩
  · rintro ⟨n, m, offsets, targets, weights, ⟨weighted, rest, hhead, hnumbers⟩, hparts⟩
    exact ⟨weighted, n, m, rest, hhead, offsets, targets, weights, hnumbers, hparts⟩

/-- **The fault of a text** is the first one among its tokens. If they all fit, it is the fault of
    the arrays that they spell. -/
theorem ofAdjacencyText_eq_error_iff :
    ofAdjacencyText text = .error e ↔
      FirstFault (tokens text) e ∨
        ∃ n m offsets targets weights, Spells (tokens text) n m offsets targets weights ∧
          ofParts (offsets ++ [m]).toArray targets.toArray weights.toArray = .error e := by
  simp only [ofAdjacencyText_eq, bind_eq_error_iff, Prod.exists, takeHead_eq_error_iff,
    takeHead_eq_ok_iff, takeNumbers_eq_error_iff, takeNumbers_eq_ok_iff, firstFault_iff, Spells]
  constructor
  · rintro (h | ⟨weighted, n, m, rest, hhead, h | ⟨offsets, targets, weights, hnumbers, hparts⟩⟩)
    · exact .inl (.inl h)
    · exact .inl (.inr ⟨weighted, n, m, rest, hhead, h⟩)
    · exact .inr ⟨n, m, offsets, targets, weights, ⟨weighted, rest, hhead, hnumbers⟩, hparts⟩
  · rintro ((h | ⟨weighted, n, m, rest, hhead, h⟩) | ⟨n, m, offsets, targets, weights,
      ⟨weighted, rest, hhead, hnumbers⟩, hparts⟩)
    · exact .inl h
    · exact .inr ⟨weighted, n, m, rest, hhead, .inl h⟩
    · exact .inr ⟨weighted, n, m, rest, hhead, .inr ⟨offsets, targets, weights, hnumbers, hparts⟩⟩

/-! ### Which arrays are accepted -/

/-- Offsets that, with the number of edges behind them, begin at 0 and never decrease, and targets
    that are vertices. -/
def Consistent (n m : UInt32) (offsets targets : List UInt32) : Prop :=
  (offsets ++ [m]).head? = some 0 ∧ (offsets ++ [m]).Pairwise (· ≤ ·) ∧ ∀ t ∈ targets, t < n

theorem SpellsWeights.length {weightTokens : List Token} {weights : List UInt32}
    (h : SpellsWeights weighted count weightTokens weights) : weights.length = count := by
  unfold SpellsWeights at h
  split at h
  · exact h.1
  · rw [h.2, List.length_replicate]

/-- **What a text spells is a graph** just in case it is consistent: the other properties of a graph
    are matters of lengths, and the counts in front see to them. -/
theorem exists_graph_iff {offsets targets weights : List UInt32}
    (h : Spells ts n m offsets targets weights) :
    (∃ g, ofParts (offsets ++ [m]).toArray targets.toArray weights.toArray = .ok g) ↔
      Consistent n m offsets targets := by
  obtain ⟨weighted, rest, _, offsetTokens, targetTokens, weightTokens, _, _, ⟨hoffsets, _⟩,
    ⟨htargets, _⟩, hweights⟩ := h
  -- One offset for each vertex and the number of edges behind them.
  have hsize : (offsets ++ [m]).toArray.size = n.toNat + 1 := by simp [hoffsets]
  simp only [ofParts_eq_ok_iff]
  constructor
  · rintro ⟨g, ho, ht, _⟩
    refine ⟨?_, ?_, ?_⟩
    · have hfirst := g.first_offset
      rw [ho, List.getElem?_toArray] at hfirst
      rw [List.head?_eq_getElem?, hfirst]
    · have hsorted := g.sorted_offsets
      rwa [ho] at hsorted
    · intro t hmem
      have hlt := g.target_lt t (by rw [ht]; simpa using hmem)
      rw [ho, hsize] at hlt
      exact UInt32.lt_iff_toNat_lt.2 (Nat.lt_of_succ_lt_succ hlt)
  · rintro ⟨hfirst, hsorted, hlt⟩
    refine ⟨⟨(offsets ++ [m]).toArray, targets.toArray, weights.toArray, ?_, ?_, hsorted, ?_, ?_⟩,
      rfl, rfl, rfl⟩
    · rw [List.getElem?_toArray, ← List.head?_eq_getElem?, hfirst]
    · simp [htargets]
    · simp [htargets, hweights.length]
    · intro t hmem
      have htn := UInt32.lt_iff_toNat_lt.1 (hlt t (by simpa using hmem))
      rw [hsize]
      exact Nat.succ_lt_succ htn

/-- **The grammar of adjacency texts.** A text has exactly one list of tokens, and these decide what
    is read: the graph has exactly the arrays that they spell, there is one if the arrays are
    consistent, and otherwise the first token that does not fit is to blame; only if all of them fit
    it is the arrays. -/
theorem ofAdjacencyText_grammar (text : List Char) :
    ∃ ts, (∀ ts', Tokenized 1 text ts' ↔ ts' = ts) ∧
      (∀ g, ofAdjacencyText text = .ok g ↔
        ∃ n m offsets targets weights, Spells ts n m offsets targets weights ∧
          g.offsets = (offsets ++ [m]).toArray ∧ g.targets = targets.toArray ∧
          g.weights = weights.toArray) ∧
      ((∃ g, ofAdjacencyText text = .ok g) ↔
        ∃ n m offsets targets weights, Spells ts n m offsets targets weights ∧
          Consistent n m offsets targets) ∧
      (∀ e, ofAdjacencyText text = .error e ↔
        FirstFault ts e ∨
          ∃ n m offsets targets weights, Spells ts n m offsets targets weights ∧
            ofParts (offsets ++ [m]).toArray targets.toArray weights.toArray = .error e) := by
  refine ⟨tokens text, fun _ => Text.tokenized_iff, ?_, ?_, fun _ => ofAdjacencyText_eq_error_iff⟩
  · intro g
    simp only [ofAdjacencyText_eq_ok_iff, ofParts_eq_ok_iff]
  · constructor
    · rintro ⟨g, h⟩
      obtain ⟨n, m, offsets, targets, weights, hspells, hparts⟩ := ofAdjacencyText_eq_ok_iff.1 h
      exact ⟨n, m, offsets, targets, weights, hspells, (exists_graph_iff hspells).1 ⟨g, hparts⟩⟩
    · rintro ⟨n, m, offsets, targets, weights, hspells, hconsistent⟩
      obtain ⟨g, hparts⟩ := (exists_graph_iff hspells).2 hconsistent
      exact ⟨g, ofAdjacencyText_eq_ok_iff.2 ⟨n, m, offsets, targets, weights, hspells, hparts⟩⟩

/-- A text that ends among its targets. -/
example : ofAdjacencyText "AdjacencyGraph\n2\n2\n0\n1\n1\n".toList =
    .error (.unexpectedEnd .edgeTarget) := by
  decide

/-- A count that is no numeral, on the third line. -/
example : ofAdjacencyText "AdjacencyGraph\n2\nx\n".toList =
    .error (.badToken 3 ['x'] .edgeCount) := by
  decide

end SparseGraph.Graph
