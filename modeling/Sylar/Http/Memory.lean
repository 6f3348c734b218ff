import Mathlib.Data.Option.Basic
import Sylar.Http.Segments

/-!
# What the constructor leaves unset

`HttpRequestParser` writes every field of its `http_parser` but two: `query_start` and
`uri_relaxed` keep what the memory held. The start of the query does no harm, for the machine
writes it in front of every query and reads it in no other state. The flag decides which edges the
machine has: with the flag it takes the bytes `^`, `{` and `}` in a path, a query, a fragment and an
authority.

Two parsers in different memory are compared call by call. As long as neither stands before a byte
that only one of them takes, they differ in the two fields and nowhere else. At the first such
byte the one without the flag stops with an error, and reports how far it came; the other one goes
on, so that whatever it reports, it is not the same.

## Main definitions

* `outcomes`: what the calls of a parser report
* `looked`: the states and the bytes at which the machine looks
* `Twins`: parsers that differ in what the constructor leaves unset

## Main results

* `outcomes_eq_of_twins`: twins that take the same bytes report the same
* `outcomes_ne_of_twins`: twins of which one takes a byte that the other does not
* `memory_independent_iff`: the inputs whose parsing depends on nothing else
-/

namespace Sylar

namespace Http

variable {buffer bs rest : List UInt8} {s t s' t' : HttpRequestParser} {cs cs' p q : ℕ}
  {acts : List Action} {a : Action} {c : UInt8}

/-! ## Runs -/

/-- What a call reports: the flags, how much it has consumed, and the request. -/
structure Outcome where
  hasError : Bool
  isFinished : Bool
  consumed : ℕ
  data : HttpRequest
  deriving DecidableEq, Repr

def HttpRequestParser.outcome (s : HttpRequestParser) (consumed : ℕ) : Outcome :=
  ⟨s.hasError, s.isFinished, consumed, s.data⟩

/-- What calls report, one after the other; an exception or a failed assertion ends them. -/
def outcomes : HttpRequestParser → List (List UInt8) → List (Option Outcome)
  | _, [] => []
  | s, buffer :: buffers =>
    match s.execute buffer with
    | none => [none]
    | some (s', n, _) => some (s'.outcome n) :: outcomes s' buffers

/-- The states and the bytes at which the machine looks, from the byte `p` of the buffer. -/
def looks (buffer : List UInt8) : HttpRequestParser → ℕ → ℕ → List UInt8 → List (ℕ × UInt8)
  | _, _, _, [] => []
  | s, cs, p, c :: rest =>
    (cs, c) :: match next s.parser.uri_relaxed cs c with
      | none => []
      | some (cs', actions) =>
        match actions.foldlM (act buffer p) s with
        | none => []
        | some s' => if .done ∈ actions then [] else looks buffer s' cs' (p + 1) rest

def looked : HttpRequestParser → List (List UInt8) → List (ℕ × UInt8)
  | _, [] => []
  | s, buffer :: buffers =>
    looks buffer s.reset s.parser.cs 0 buffer ++
      match s.execute buffer with
      | none => []
      | some (s', _) => looked s' buffers

/-! ## The table -/

/-- Whether the start of the query has been written in a state. -/
def querying (cs : ℕ) : Bool := 30 ≤ cs && cs ≤ 32

/-- Whether it has been written after an action; it is read only then. -/
def reading (q : Bool) : Action → Option Bool
  | .start_query => some true
  | .query_string => if q then some q else none
  | _ => some q

/-- The header lines, the final states and the error state. -/
def inHeaders (cs : ℕ) : Bool := cs = 0 || 13 ≤ cs && cs ≤ 18 || 348 ≤ cs

def Edge.readsWritten (e : Edge) (cs : ℕ) : Bool :=
  (e.actions.foldlM reading (querying cs)).any fun q => !querying e.target || q

/-- The machine does not leave the headers, is there when it is done, and has no relaxed edge. -/
def Edge.staysInHeaders (e : Edge) (cs : ℕ) : Bool :=
  (!inHeaders cs || inHeaders e.target && !e.relaxed) &&
    (!decide (.done ∈ e.actions) || inHeaders e.target)

theorem table_unset :
    (table.zipIdx.all fun row => row.1.all fun e =>
      e.readsWritten row.2 && e.staysInHeaders row.2) = true := by
  decide +kernel

/-- An edge of a state is in its row of the table. -/
theorem exists_row {e : Edge} (he : e ∈ table.getD cs []) :
    ∃ row, table[cs]? = some row ∧ e ∈ row := by
  rw [List.getD_eq_getElem?_getD] at he
  cases hrow : table[cs]? with
  | none =>
    rw [hrow] at he
    cases he
  | some row =>
    rw [hrow] at he
    exact ⟨row, rfl, he⟩

theorem edge_unset {e : Edge} (he : e ∈ table.getD cs []) :
    e.readsWritten cs = true ∧ e.staysInHeaders cs = true := by
  obtain ⟨row, hrow, hmem⟩ := exists_row he
  have hzip : (row, cs) ∈ table.zipIdx := List.mem_zipIdx_iff_getElem?.mpr hrow
  have hedge := List.all_eq_true.mp (List.all_eq_true.mp table_unset _ hzip) e hmem
  rwa [Bool.and_eq_true] at hedge

/-- The edge that is taken. -/
theorem edge_of_next {r : Bool} (h : next r cs c = some (cs', acts)) :
    ∃ e ∈ table.getD cs [], e.target = cs' ∧ e.actions = acts := by
  unfold next at h
  obtain ⟨e, he, heq⟩ := Option.map_eq_some_iff.mp h
  obtain ⟨rfl, rfl⟩ := Prod.mk.inj heq
  exact ⟨e, List.mem_of_find?_eq_some he, rfl, rfl⟩

theorem next_reading {r : Bool} (h : next r cs c = some (cs', acts)) :
    ∃ q, acts.foldlM reading (querying cs) = some q ∧ (querying cs' = true → q = true) := by
  obtain ⟨e, he, rfl, rfl⟩ := edge_of_next h
  obtain ⟨q, hq, hwritten⟩ := (Option.any_eq_true _ _).mp (edge_unset he).1
  refine ⟨q, hq, fun htarget => ?_⟩
  simpa [htarget] using hwritten

theorem next_inHeaders {r : Bool} (h : next r cs c = some (cs', acts)) :
    (inHeaders cs = true → inHeaders cs' = true) ∧ (.done ∈ acts → inHeaders cs' = true) := by
  obtain ⟨e, he, rfl, rfl⟩ := edge_of_next h
  have hstays := (edge_unset he).2
  simp only [Edge.staysInHeaders, Bool.and_eq_true, Bool.or_eq_true, Bool.not_eq_true',
    decide_eq_false_iff_not] at hstays
  exact ⟨fun hcs => (hstays.1.resolve_left (by simp [hcs])).1,
    fun hdone => hstays.2.resolve_left fun hnot => hnot hdone⟩

/-- In the headers the flag makes no difference. -/
theorem next_eq_of_inHeaders (h : inHeaders cs = true) (c : UInt8) :
    next true cs c = next false cs c := by
  unfold next
  rw [List.find?_congr]
  intro e he
  have hstays := (edge_unset he).2
  simp only [Edge.staysInHeaders, h, Bool.and_eq_true, Bool.or_eq_true, Bool.not_true,
    Bool.false_eq_true, false_or, Bool.not_eq_true'] at hstays
  simp [hstays.1.2]

/-- The relaxed edges are for the three bytes. -/
theorem table_relaxed : (table.all fun row => row.all fun e =>
    !e.relaxed || e.lo == e.hi && [94, 123, 125].contains e.lo) = true := by
  decide +kernel

/-- The relaxed edges of a state are its last ones. -/
theorem table_relaxed_last :
    (table.all fun row => decide (row.Pairwise fun e e' => (!e.relaxed || e'.relaxed) = true)) =
      true := by
  decide +kernel

/-- The flag matters for three bytes only. -/
theorem next_eq_of_not_mem (hc : c.toNat ∉ [94, 123, 125]) : next true cs c = next false cs c := by
  unfold next
  rw [List.find?_congr]
  intro e he
  cases hrelaxed : e.relaxed with
  | false => rfl
  | true =>
    obtain ⟨row, hget, hmem⟩ := exists_row he
    have hrow : row ∈ table := List.mem_of_getElem? hget
    have hedge := List.all_eq_true.mp (List.all_eq_true.mp table_relaxed row hrow) e hmem
    simp only [hrelaxed, Bool.not_true, Bool.false_or, Bool.and_eq_true, beq_iff_eq,
      List.contains_iff_mem] at hedge
    have hrange : (decide (e.lo ≤ c.toNat) && decide (c.toNat ≤ e.hi)) = false := by
      rw [Bool.eq_false_iff]
      intro hin
      rw [Bool.and_eq_true, decide_eq_true_eq, decide_eq_true_eq] at hin
      have heq : c.toNat = e.lo := by omega
      exact hc (heq ▸ hedge.2)
    simp [hrange]

/-- The edge found without the flag is found with it, where the relaxed ones come last. -/
theorem find_strict {row : List Edge} {p : Edge → Bool}
    (hrow : row.Pairwise fun e e' => (!e.relaxed || e'.relaxed) = true)
    (h : row.find? (fun e => p e && (!e.relaxed || false)) ≠ none) :
    row.find? (fun e => p e && (!e.relaxed || true)) =
      row.find? fun e => p e && (!e.relaxed || false) := by
  induction row with
  | nil => rfl
  | cons e row ih =>
    rw [List.pairwise_cons] at hrow
    cases hrelaxed : e.relaxed with
    | true =>
      -- nothing that comes behind is found without the flag
      refine absurd (List.find?_eq_none.mpr fun e' he' => ?_) h
      have hlast : e'.relaxed = true := by
        rcases List.mem_cons.mp he' with rfl | he'
        · exact hrelaxed
        · simpa [hrelaxed] using hrow.1 e' he'
      simp [hlast]
    | false =>
      rw [List.find?_cons, List.find?_cons] at *
      cases hp : p e with
      | true => simp [hrelaxed]
      | false =>
        simp only [hp, Bool.false_and] at h ⊢
        exact ih hrow.2 h

/-- What the machine takes without the flag, it takes with it. -/
theorem next_strict (h : next false cs c ≠ none) : next true cs c = next false cs c := by
  unfold next at h ⊢
  cases hget : table[cs]? with
  | none =>
    rw [List.getD_eq_getElem?_getD, hget] at h
    exact absurd rfl h
  | some row =>
    have hrow := List.all_eq_true.mp table_relaxed_last row (List.mem_of_getElem? hget)
    rw [List.getD_eq_getElem?_getD, hget, Option.getD_some] at h ⊢
    rw [find_strict (of_decide_eq_true hrow)]
    rwa [ne_eq, Option.map_eq_none_iff] at h

/-! ## Twins -/

/-- Parsers that differ in what the constructor leaves unset and in nothing else; in the start of
the query only where it has not been written. -/
def Twins (q : Bool) (s t : HttpRequestParser) : Prop :=
  ∃ query_start uri_relaxed,
    t = s.update ({ · with query_start := query_start, uri_relaxed := uri_relaxed }) ∧
      (q = true → query_start = s.parser.query_start)

theorem twins_new (m₁ m₂ : HttpParser) : Twins false (.new m₁) (.new m₂) :=
  ⟨m₂.query_start, m₂.uri_relaxed, rfl, fun h => nomatch h⟩

theorem Twins.mono {q q' : Bool} (h : Twins q s t) (hq : q' = true → q = true) : Twins q' s t := by
  obtain ⟨query_start, uri_relaxed, ht, hquery⟩ := h
  exact ⟨query_start, uri_relaxed, ht, fun h => hquery (hq h)⟩

theorem Twins.outcome {q : Bool} (h : Twins q s t) (n : ℕ) : s.outcome n = t.outcome n := by
  obtain ⟨query_start, uri_relaxed, rfl, -⟩ := h
  rfl

theorem Twins.state {q : Bool} (h : Twins q s t) : t.parser.cs = s.parser.cs := by
  obtain ⟨query_start, uri_relaxed, rfl, -⟩ := h
  rfl

theorem Twins.reset {q : Bool} (h : Twins q s t) : Twins q s.reset t.reset := by
  obtain ⟨query_start, uri_relaxed, rfl, hquery⟩ := h
  exact ⟨query_start, uri_relaxed, rfl, hquery⟩

/-- A callback sets the request of both. -/
theorem Twins.set {q : Bool} (h : Twins q s t) (o : Option (List UInt8))
    (f : List UInt8 → HttpRequest) : Option.Rel (Twins q)
      (o.map fun v => { s with data := f v }) (o.map fun v => { t with data := f v }) := by
  obtain ⟨query_start, uri_relaxed, rfl, hquery⟩ := h
  cases o with
  | none => exact .none
  | some v => exact .some ⟨query_start, uri_relaxed, rfl, hquery⟩

theorem Twins.field {q : Bool} (h : Twins q s t) (field : List UInt8) (flen : ℕ)
    (value : List UInt8) (vlen : ℕ) : Option.Rel (Twins q)
      (onRequestHttpField s field flen value vlen)
      (onRequestHttpField t field flen value vlen) := by
  unfold onRequestHttpField
  split_ifs
  · exact .some h
  · cases str field flen with
    | none => exact .none
    | some key =>
      obtain ⟨query_start, uri_relaxed, rfl, hquery⟩ := h
      cases str value vlen with
      | none => exact .none
      | some val => exact .some ⟨query_start, uri_relaxed, rfl, hquery⟩

theorem Twins.method {q : Bool} (h : Twins q s t) (at' : List UInt8) :
    Twins q (onReqeustMethod s at') (onReqeustMethod t at') := by
  obtain ⟨query_start, uri_relaxed, rfl, hquery⟩ := h
  simp only [onReqeustMethod]
  split_ifs <;> exact ⟨query_start, uri_relaxed, rfl, hquery⟩

theorem Twins.version {q : Bool} (h : Twins q s t) (at' : List UInt8) (length : ℕ) :
    Twins q (onRequestHttpVersion s at' length) (onRequestHttpVersion t at' length) := by
  obtain ⟨query_start, uri_relaxed, rfl, hquery⟩ := h
  unfold onRequestHttpVersion
  cases versionOf at' length <;> exact ⟨query_start, uri_relaxed, rfl, hquery⟩

/-- **An action** does the same to twins. -/
theorem act_twins (buffer : List UInt8) (p : ℕ) {q q' : Bool} (h : Twins q s t)
    (hq : reading q a = some q') :
    Option.Rel (Twins q') (act buffer p s a) (act buffer p t a) := by
  have hset := h.set
  have hfield := h.field
  have hmethod := h.method
  have hversion := h.version
  obtain ⟨query_start, uri_relaxed, rfl, hquery⟩ := h
  cases a with
  -- from here on the offsets agree
  | start_query =>
    obtain rfl := Option.some.inj hq
    exact .some ⟨p, uri_relaxed, rfl, fun _ => rfl⟩
  -- the only reader of the offset
  | query_string =>
    simp only [reading] at hq
    split_ifs at hq with hwritten
    obtain rfl := hquery hwritten
    obtain rfl := Option.some.inj hq
    exact hset _ _
  | write_value =>
    obtain rfl := Option.some.inj hq
    exact hfield _ _ _ _
  | request_method =>
    obtain rfl := Option.some.inj hq
    exact .some (hmethod _)
  | http_version =>
    obtain rfl := Option.some.inj hq
    exact .some (hversion _ _)
  | fragment | request_path =>
    obtain rfl := Option.some.inj hq
    exact hset _ _
  | done =>
    obtain rfl := Option.some.inj hq
    cases hsent : s.parser.xml_sent || s.parser.json_sent <;>
      simp only [act, HttpRequestParser.update, hsent] <;>
      exact .some ⟨query_start, uri_relaxed, rfl, hquery⟩
  | _ =>
    obtain rfl := Option.some.inj hq
    exact .some ⟨query_start, uri_relaxed, rfl, hquery⟩

theorem foldlM_twins (buffer : List UInt8) (p : ℕ) {q q' : Bool} (h : Twins q s t)
    (hq : acts.foldlM reading q = some q') :
    Option.Rel (Twins q') (acts.foldlM (act buffer p) s) (acts.foldlM (act buffer p) t) := by
  induction acts generalizing q s t with
  | nil =>
    obtain rfl := Option.some.inj hq
    exact .some h
  | cons a acts ih =>
    rw [List.foldlM_cons, Option.bind_eq_bind, Option.bind_eq_some_iff] at hq
    obtain ⟨q₁, hq₁, hrest⟩ := hq
    rw [List.foldlM_cons, List.foldlM_cons]
    have hact := act_twins buffer p h hq₁
    generalize act buffer p s a = o at hact ⊢
    generalize act buffer p t a = o' at hact ⊢
    cases hact with
    | none => exact .none
    | some htwins => exact ih htwins hrest

/-! ## Calls of twins -/

theorem kept_foldlM (h : acts.foldlM (act buffer p) s = some s') : Kept s.parser s'.parser := by
  induction acts generalizing s with
  | nil =>
    obtain rfl := Option.some.inj h
    exact ⟨rfl, rfl, rfl⟩
  | cons a acts ih =>
    rw [List.foldlM_cons, Option.bind_eq_bind, Option.bind_eq_some_iff] at h
    obtain ⟨s₁, hact, hrest⟩ := h
    exact (kept_act hact).trans (ih hrest)

/-- A step of the machine: there is no edge, or its actions are done, and it stops or goes on. -/
theorem exec_cons_iff : exec buffer s cs p (c :: rest) = some (s', cs', q) ↔
    next s.parser.uri_relaxed cs c = none ∧ (s', cs', q) = (s, 0, p) ∨
    ∃ cs₁ acts s₁, next s.parser.uri_relaxed cs c = some (cs₁, acts) ∧
      acts.foldlM (act buffer p) s = some s₁ ∧
      (.done ∈ acts ∧ (s', cs', q) = (s₁, cs₁, p + 1) ∨
        .done ∉ acts ∧ exec buffer s₁ cs₁ (p + 1) rest = some (s', cs', q)) := by
  rw [exec]
  cases hnext : next s.parser.uri_relaxed cs c with
  | none => simp [eq_comm]
  | some edge =>
    obtain ⟨cs₁, acts⟩ := edge
    simp only [Option.bind_eq_some_iff, reduceCtorEq, false_and, false_or, Option.some.injEq,
      Prod.mk.injEq]
    constructor
    · rintro ⟨s₁, hacts, hend⟩
      refine ⟨cs₁, acts, s₁, ⟨rfl, rfl⟩, hacts, ?_⟩
      split_ifs at hend with hdone
      · simp only [Option.some.injEq, Prod.mk.injEq] at hend
        exact .inl ⟨hdone, hend.1.symm, hend.2.1.symm, hend.2.2.symm⟩
      · exact .inr ⟨hdone, hend⟩
    · rintro ⟨cs₂, acts₂, s₁, ⟨rfl, rfl⟩, hacts, hend⟩
      refine ⟨s₁, hacts, ?_⟩
      rcases hend with ⟨hdone, rfl, rfl, rfl⟩ | ⟨hdone, hend⟩
      · rw [if_pos hdone]
      · rwa [if_neg hdone]

/-- What the machine keeps, and it does not go back. -/
theorem kept_exec (h : exec buffer s cs p bs = some (s', cs', q)) :
    Kept s.parser s'.parser ∧ p ≤ q := by
  induction bs generalizing s cs p with
  | nil =>
    cases h
    exact ⟨⟨rfl, rfl, rfl⟩, Nat.le_refl _⟩
  | cons c rest ih =>
    rcases exec_cons_iff.mp h with ⟨-, heq⟩ | ⟨cs₁, acts, s₁, -, hacts, ⟨-, heq⟩ | ⟨-, hrest⟩⟩
    · cases heq
      exact ⟨⟨rfl, rfl, rfl⟩, Nat.le_refl _⟩
    · cases heq
      exact ⟨kept_foldlM hacts, Nat.le_succ p⟩
    · obtain ⟨hkept, hle⟩ := ih hrest
      exact ⟨(kept_foldlM hacts).trans hkept, Nat.le_of_succ_le hle⟩

/-- Where both machines take the same edges, they end alike. -/
theorem exec_twins {r : Bool} (h : Twins (querying cs) s t) (hr : t.parser.uri_relaxed = r)
    (hsame : ∀ x ∈ looks buffer s cs p bs, next r x.1 x.2 = next s.parser.uri_relaxed x.1 x.2) :
    Option.Rel (fun x y => Twins (querying x.2.1) x.1 y.1 ∧ x.2 = y.2)
      (exec buffer s cs p bs) (exec buffer t cs p bs) := by
  induction bs generalizing s t cs p with
  | nil => exact .some ⟨h, rfl⟩
  | cons c rest ih =>
    rw [looks, List.forall_mem_cons] at hsame
    obtain ⟨hedge, hrest⟩ := hsame
    rw [exec, exec, hr, hedge]
    cases hnext : next s.parser.uri_relaxed cs c with
    | none => exact .some ⟨h.mono (fun hq => absurd hq Bool.false_ne_true), rfl⟩
    | some edge =>
      obtain ⟨cs', acts⟩ := edge
      obtain ⟨q, hq, hquery⟩ := next_reading hnext
      have hacts := foldlM_twins buffer p h hq
      rw [hnext] at hrest
      simp only at hrest ⊢
      cases hs : acts.foldlM (act buffer p) s with
      | none =>
        rw [hs] at hacts
        generalize acts.foldlM (act buffer p) t = o at hacts ⊢
        cases hacts
        exact .none
      | some s₁ =>
        cases ht : acts.foldlM (act buffer p) t with
        | none =>
          rw [hs, ht] at hacts
          cases hacts
        | some t₁ =>
          rw [hs, ht, Option.rel_some_some] at hacts
          rw [hs] at hrest
          simp only [Option.bind_some] at hrest ⊢
          -- `done` leaves the loop
          split_ifs at hrest ⊢
          · exact .some ⟨hacts.mono hquery, rfl⟩
          · refine ih (hacts.mono hquery) ((kept_foldlM ht).2.2.trans hr) ?_
            rwa [(kept_foldlM hs).2.2]

/-- The parser at the end of a call, where the machine has stopped in a state at a byte. -/
def HttpParser.left (x : HttpParser) (cs p : ℕ) : HttpParser :=
  let x := if x.hasError then x else { x with cs := cs }
  { x with nread := x.nread + p }

theorem HttpParser.left_of_error {x : HttpParser} (h : x.hasError = true) (cs p : ℕ) :
    x.left cs p = { x with nread := x.nread + p } := by
  simp only [HttpParser.left, h, if_true]

theorem HttpParser.left_of_ok {x : HttpParser} (h : x.hasError = false) (cs p : ℕ) :
    x.left cs p = { x with cs := cs, nread := x.nread + p } := by
  simp only [HttpParser.left, h, Bool.false_eq_true, if_false]

theorem HttpParser.left_unset (x : HttpParser) (cs p query_start : ℕ) (uri_relaxed : Bool) :
    { x with query_start := query_start, uri_relaxed := uri_relaxed }.left cs p =
      { x.left cs p with query_start := query_start, uri_relaxed := uri_relaxed } := by
  have hsame : { x with query_start := query_start, uri_relaxed := uri_relaxed }.hasError =
    x.hasError := rfl
  cases herror : x.hasError with
  | true => rw [left_of_error (hsame.trans herror), left_of_error herror]
  | false => rw [left_of_ok (hsame.trans herror), left_of_ok herror]

theorem HttpParser.inBounds_unset (x : HttpParser) (len query_start : ℕ) (uri_relaxed : Bool) :
    { x with query_start := query_start, uri_relaxed := uri_relaxed }.inBounds len ↔
      x.inBounds len := Iff.rfl

/-- The end of a call: the assertions, and what is returned. -/
def leave (len : ℕ) : HttpRequestParser × ℕ × ℕ → Option (HttpRequestParser × ℕ)
  | (s, cs, p) =>
    let x := s.parser.left cs p
    if x.inBounds len then some ({ s with parser := x }, x.nread) else none

theorem httpParserExecute_eq (hne : buffer ≠ []) : httpParserExecute s buffer =
    (exec buffer s.reset s.parser.cs 0 buffer).bind (leave buffer.length) :=
  if_neg hne

theorem leave_twins (len : ℕ) (h : Twins (querying cs) s t) :
    Option.Rel (fun x y => Twins (querying x.1.parser.cs) x.1 y.1 ∧ x.2 = y.2)
      (leave len (s, cs, p)) (leave len (t, cs, p)) := by
  obtain ⟨query_start, uri_relaxed, rfl, hquery⟩ := h
  simp only [leave, HttpRequestParser.update, HttpParser.left_unset, HttpParser.inBounds_unset]
  by_cases hbounds : (s.parser.left cs p).inBounds len
  · rw [if_pos hbounds, if_pos hbounds]
    refine .some ⟨⟨query_start, uri_relaxed, rfl, fun hq => ?_⟩, rfl⟩
    -- without an error the state is the one in which the machine has stopped
    cases herror : s.parser.hasError with
    | true =>
      have hcs : s.parser.cs = 0 := of_decide_eq_true herror
      rw [HttpParser.left_of_error herror] at hq
      simp only [hcs] at hq
      cases hq
    | false =>
      rw [HttpParser.left_of_ok herror] at hq ⊢
      exact hquery hq
  · rw [if_neg hbounds, if_neg hbounds]
    exact .none

theorem relaxed_of_leave {len n : ℕ} (h : leave len (s, cs, p) = some (s', n)) :
    s'.parser.uri_relaxed = s.parser.uri_relaxed := by
  simp only [leave] at h
  split_ifs at h
  cases h
  cases herror : s.parser.hasError with
  | true => rw [HttpParser.left_of_error herror]
  | false => rw [HttpParser.left_of_ok herror]

theorem relaxed_of_execute {n : ℕ} (h : s.execute buffer = some (s', n, rest)) :
    s'.parser.uri_relaxed = s.parser.uri_relaxed := by
  unfold HttpRequestParser.execute at h
  obtain ⟨⟨s₁, n₁⟩, hcall, heq⟩ := Option.map_eq_some_iff.mp h
  obtain ⟨rfl, -⟩ := Prod.mk.inj heq
  by_cases hne : buffer = []
  · rw [httpParserExecute, if_pos hne] at hcall
    cases hcall
    rfl
  · rw [httpParserExecute_eq hne] at hcall
    obtain ⟨⟨s₂, cs₂, p₂⟩, hexec, hleave⟩ := Option.bind_eq_some_iff.mp hcall
    exact (relaxed_of_leave hleave).trans ((kept_exec hexec).1.2.2.trans rfl)

/-- **A call** of twins that take the same bytes. -/
theorem execute_twins (buffer : List UInt8) {r : Bool} (h : Twins (querying s.parser.cs) s t)
    (hr : t.parser.uri_relaxed = r) (hsame : ∀ x ∈ looks buffer s.reset s.parser.cs 0 buffer,
      next r x.1 x.2 = next s.parser.uri_relaxed x.1 x.2) :
    Option.Rel (fun x y => Twins (querying x.1.parser.cs) x.1 y.1 ∧ x.2 = y.2)
      (s.execute buffer) (t.execute buffer) := by
  unfold HttpRequestParser.execute
  by_cases hne : buffer = []
  · rw [httpParserExecute, if_pos hne, httpParserExecute, if_pos hne]
    exact .some ⟨h, rfl⟩
  · rw [httpParserExecute_eq hne, httpParserExecute_eq hne, h.state]
    have hexec := exec_twins (s := s.reset) (t := t.reset) h.reset hr hsame
    generalize exec buffer s.reset s.parser.cs 0 buffer = o at hexec ⊢
    generalize exec buffer t.reset s.parser.cs 0 buffer = o' at hexec ⊢
    cases hexec with
    | none => exact .none
    | some hend =>
      rename_i x y
      obtain ⟨s₁, cs₁, p₁⟩ := x
      obtain ⟨t₁, y⟩ := y
      obtain ⟨htwins, rfl⟩ := hend
      have hleave := leave_twins (p := p₁) buffer.length htwins
      simp only [Option.bind_some]
      generalize leave buffer.length (s₁, cs₁, p₁) = o at hleave ⊢
      generalize leave buffer.length (t₁, cs₁, p₁) = o' at hleave ⊢
      cases hleave with
      | none => exact .none
      | some hcall =>
        rename_i x y
        obtain ⟨s₂, n⟩ := x
        obtain ⟨t₂, n'⟩ := y
        obtain ⟨htwins, rfl⟩ := hcall
        exact .some ⟨htwins, rfl⟩

/-- **Twins that take the same bytes** report the same. -/
theorem outcomes_eq_of_twins {buffers : List (List UInt8)} (h : Twins (querying s.parser.cs) s t)
    (hsame : ∀ x ∈ looked s buffers,
      next t.parser.uri_relaxed x.1 x.2 = next s.parser.uri_relaxed x.1 x.2) :
    outcomes s buffers = outcomes t buffers := by
  induction buffers generalizing s t with
  | nil => rfl
  | cons buffer buffers ih =>
    rw [looked] at hsame
    have hcall := execute_twins buffer h rfl fun x hx => hsame x (List.mem_append_left _ hx)
    rw [outcomes, outcomes]
    cases hs : s.execute buffer with
    | none =>
      rw [hs] at hcall
      generalize t.execute buffer = o at hcall ⊢
      cases hcall
      rfl
    | some x =>
      cases ht : t.execute buffer with
      | none =>
        rw [hs, ht] at hcall
        cases hcall
      | some y =>
        rw [hs, ht, Option.rel_some_some] at hcall
        obtain ⟨s', n, rest⟩ := x
        obtain ⟨t', y⟩ := y
        obtain ⟨htwins, rfl⟩ := hcall
        simp only
        rw [htwins.outcome]
        refine congrArg _ (ih htwins fun x hx => ?_)
        rw [relaxed_of_execute hs, relaxed_of_execute ht]
        exact hsame x (List.mem_append_right _ (by rw [hs]; exact hx))

/-! ## The first byte that only one of them takes -/

/-- The marks are not behind the byte `p`. -/
def Low (p : ℕ) (x : HttpParser) : Prop := x.mark ≤ p ∧ x.field_start ≤ p ∧ x.field_len ≤ p

theorem Low.mono (h : Low p s.parser) (hle : p ≤ q) : Low q s.parser :=
  ⟨Nat.le_trans h.1 hle, Nat.le_trans h.2.1 hle, Nat.le_trans h.2.2 hle⟩

/-- A callback does not touch the parser, and only `done` sets the start of the body. -/
theorem low_act (hlow : Low p s.parser) (h : act buffer p s a = some s') : Low p s'.parser ∧
    (a ≠ .done → s'.parser.body_start = s.parser.body_start) := by
  obtain ⟨hmark, hstart, hlen⟩ := hlow
  -- a callback that sets a part of the request leaves the marks
  have hset : ∀ {o : Option (List UInt8)} {f : List UInt8 → HttpRequest},
      (o.map fun v => { s with data := f v }) = some s' → s'.parser = s.parser := by
    intro o f ho
    obtain ⟨v, -, rfl⟩ := Option.map_eq_some_iff.mp ho
    rfl
  have hsame : s'.parser = s.parser → Low p s'.parser ∧
      (a ≠ .done → s'.parser.body_start = s.parser.body_start) := by
    intro heq
    rw [heq]
    exact ⟨⟨hmark, hstart, hlen⟩, fun _ => rfl⟩
  cases a with
  | mark | start_value =>
    cases h
    exact ⟨⟨Nat.le_refl p, hstart, hlen⟩, fun _ => rfl⟩
  | start_field =>
    cases h
    exact ⟨⟨hmark, Nat.le_refl p, hlen⟩, fun _ => rfl⟩
  | write_field =>
    cases h
    have hwritten : len s.parser.field_start p ≤ p := by
      rw [len, if_pos hstart]
      exact Nat.sub_le ..
    exact ⟨⟨hmark, hstart, hwritten⟩, fun _ => rfl⟩
  | write_value =>
    simp only [act, onRequestHttpField] at h
    split_ifs at h
    · cases h
      exact hsame rfl
    · obtain ⟨key, -, hval⟩ := Option.bind_eq_some_iff.mp h
      exact hsame (hset hval)
  | request_method =>
    cases h
    refine hsame ?_
    simp only [onReqeustMethod]
    split_ifs <;> rfl
  | http_version =>
    cases h
    refine hsame ?_
    simp only [onRequestHttpVersion]
    split <;> rfl
  | fragment | query_string | request_path => exact hsame (hset h)
  | done =>
    cases h
    refine ⟨?_, fun hne => absurd rfl hne⟩
    simp only [HttpRequestParser.update]
    split_ifs <;> exact ⟨hmark, hstart, hlen⟩
  | _ =>
    cases h
    exact ⟨⟨hmark, hstart, hlen⟩, fun _ => rfl⟩

theorem low_foldlM (hlow : Low p s.parser) (h : acts.foldlM (act buffer p) s = some s') :
    Low p s'.parser ∧ (.done ∉ acts → s'.parser.body_start = s.parser.body_start) := by
  induction acts generalizing s with
  | nil =>
    obtain rfl := Option.some.inj h
    exact ⟨hlow, fun _ => rfl⟩
  | cons a acts ih =>
    rw [List.foldlM_cons, Option.bind_eq_bind, Option.bind_eq_some_iff] at h
    obtain ⟨s₁, hact, hrest⟩ := h
    obtain ⟨hlow₁, hbody₁⟩ := low_act hlow hact
    obtain ⟨hlow', hbody'⟩ := ih hlow₁ hrest
    refine ⟨hlow', fun hdone => ?_⟩
    rw [List.mem_cons, not_or] at hdone
    exact (hbody' hdone.2).trans (hbody₁ fun heq => hdone.1 heq.symm)

/-- The start of the body is not set until the machine is in the headers. -/
def Early (cs : ℕ) (x : HttpParser) : Prop := inHeaders cs = true ∨ x.body_start = 0

theorem early_next {r : Bool} (hlow : Low p s.parser) (hearly : Early cs s.parser)
    (hnext : next r cs c = some (cs', acts)) (h : acts.foldlM (act buffer p) s = some s') :
    Early cs' s'.parser := by
  obtain ⟨hstay, hdone⟩ := next_inHeaders hnext
  by_cases hmem : .done ∈ acts
  · exact .inl (hdone hmem)
  · rcases hearly with hcs | hbody
    · exact .inl (hstay hcs)
    · exact .inr (((low_foldlM hlow h).2 hmem).trans hbody)

theorem early_exec (hlow : Low p s.parser) (hearly : Early cs s.parser)
    (h : exec buffer s cs p bs = some (s', cs', q)) : Early cs' s'.parser := by
  induction bs generalizing s cs p with
  | nil =>
    cases h
    exact hearly
  | cons c rest ih =>
    rcases exec_cons_iff.mp h with ⟨-, heq⟩ | ⟨cs₁, acts, s₁, hnext, hacts, ⟨-, heq⟩ | ⟨-, hrest⟩⟩
    · cases heq
      exact .inl rfl
    · cases heq
      exact early_next hlow hearly hnext hacts
    · exact ih ((low_foldlM hlow hacts).1.mono (Nat.le_succ p))
        (early_next hlow hearly hnext hacts) hrest

/-- **The first byte that only one machine takes**: the strict one stops there. -/
theorem exec_diverges (h : Twins (querying cs) s t) (hs : s.parser.uri_relaxed = false)
    (ht : t.parser.uri_relaxed = true) (hlow : Low p s.parser) (hearly : Early cs s.parser)
    (hdiff : ∃ x ∈ looks buffer s cs p bs, next true x.1 x.2 ≠ next false x.1 x.2) :
    inHeaders cs = false ∧ ∃ s' q, exec buffer s cs p bs = some (s', 0, q) ∧ q < p + bs.length ∧
      Low q s'.parser ∧ s'.parser.body_start = 0 ∧
      ∀ t' cs' q', exec buffer t cs p bs = some (t', cs', q') → q < q' := by
  induction bs generalizing s t cs p with
  | nil =>
    obtain ⟨x, hx, -⟩ := hdiff
    cases hx
  | cons c rest ih =>
    rw [looks, hs] at hdiff
    -- at the first byte at which the machines differ the strict one stops
    by_cases hedge : next true cs c = next false cs c
    · -- both go on
      cases hnext : next false cs c with
      | none =>
        rw [hnext] at hdiff
        obtain ⟨x, hx, hne⟩ := hdiff
        obtain rfl := List.mem_singleton.mp hx
        exact absurd hedge hne
      | some edge =>
        obtain ⟨cs₁, acts⟩ := edge
        obtain ⟨q₀, hq₀, hquery⟩ := next_reading hnext
        have hacts := foldlM_twins buffer p h hq₀
        rw [hnext] at hdiff
        simp only at hdiff
        cases hs₁ : acts.foldlM (act buffer p) s with
        | none =>
          rw [hs₁] at hdiff
          obtain ⟨x, hx, hne⟩ := hdiff
          obtain rfl := List.mem_singleton.mp hx
          exact absurd hedge hne
        | some s₁ =>
          cases ht₁ : acts.foldlM (act buffer p) t with
          | none =>
            rw [hs₁, ht₁] at hacts
            cases hacts
          | some t₁ =>
            rw [hs₁, ht₁, Option.rel_some_some] at hacts
            rw [hs₁] at hdiff
            obtain ⟨x, hx, hne⟩ := hdiff
            rcases List.mem_cons.mp hx with rfl | hx
            · exact absurd hedge hne
            split_ifs at hx with hdone
            · cases hx
            obtain ⟨hheaders, s', q, hexec, hlt, hlow', hbody', hlater⟩ :=
              ih (hacts.mono hquery) ((kept_foldlM hs₁).2.2.trans hs)
                ((kept_foldlM ht₁).2.2.trans ht)
                ((low_foldlM hlow hs₁).1.mono (Nat.le_succ p))
                (early_next hlow hearly hnext hs₁) ⟨x, hx, hne⟩
            refine ⟨?_, s', q, ?_, ?_, hlow', hbody', ?_⟩
            · rw [Bool.eq_false_iff] at hheaders ⊢
              exact fun hcs => hheaders ((next_inHeaders hnext).1 hcs)
            · exact exec_cons_iff.mpr (.inr ⟨cs₁, acts, s₁, by rw [hs, hnext], hs₁,
                .inr ⟨hdone, hexec⟩⟩)
            · rw [List.length_cons]
              omega
            · intro t' cs' q' hexec'
              rcases exec_cons_iff.mp hexec' with
                ⟨hnone, -⟩ | ⟨cs₂, acts₂, t₂, hnext₂, hacts₂, hend⟩
              · rw [ht, hedge, hnext] at hnone
                cases hnone
              · rw [ht, hedge, hnext] at hnext₂
                cases hnext₂
                rw [ht₁] at hacts₂
                cases hacts₂
                rcases hend with ⟨hmem, -⟩ | ⟨-, hrest⟩
                · exact absurd hmem hdone
                · exact hlater t' cs' q' hrest
    · -- the strict machine has no edge
      have hnone : next false cs c = none := by
        by_contra hsome
        exact hedge (next_strict hsome)
      have hheaders : inHeaders cs = false := by
        rw [Bool.eq_false_iff]
        exact fun hcs => hedge (next_eq_of_inHeaders hcs c)
      have hbody := hearly.resolve_left (by simp [hheaders])
      refine ⟨hheaders, s, p, ?_, ?_, hlow, hbody, ?_⟩
      · exact exec_cons_iff.mpr (.inl ⟨by rw [hs, hnone], rfl⟩)
      · rw [List.length_cons]
        omega
      · intro t' cs' q' hexec'
        rcases exec_cons_iff.mp hexec' with ⟨hnone', -⟩ | ⟨cs₁, acts, t₁, -, -, hend⟩
        · rw [ht] at hnone'
          exact absurd (hnone'.trans hnone.symm) hedge
        · rcases hend with ⟨-, heq⟩ | ⟨-, hrest⟩
          · cases heq
            exact Nat.lt_succ_self p
          · exact (kept_exec hrest).2

/-! ## Runs of twins -/

theorem leave_early {len n : ℕ} (h : leave len (s, cs, p) = some (s', n))
    (hearly : Early cs s.parser) : Early s'.parser.cs s'.parser := by
  simp only [leave] at h
  split_ifs at h
  cases h
  cases herror : s.parser.hasError with
  | true =>
    have hcs : s.parser.cs = 0 := of_decide_eq_true herror
    rw [HttpParser.left_of_error herror]
    exact .inl (by simp only [hcs]; rfl)
  | false =>
    rw [HttpParser.left_of_ok herror]
    exact hearly

/-- The parts of a call. -/
theorem execute_parts {n : ℕ} (hne : buffer ≠ []) (h : s.execute buffer = some (s', n, rest)) :
    ∃ s₁ cs₁ p₁, exec buffer s.reset s.parser.cs 0 buffer = some (s₁, cs₁, p₁) ∧
      leave buffer.length (s₁, cs₁, p₁) = some (s', n) := by
  unfold HttpRequestParser.execute at h
  obtain ⟨⟨s₂, n₂⟩, hcall, heq⟩ := Option.map_eq_some_iff.mp h
  obtain ⟨rfl, hpair⟩ := Prod.mk.inj heq
  obtain ⟨rfl, -⟩ := Prod.mk.inj hpair
  rw [httpParserExecute_eq hne] at hcall
  obtain ⟨⟨s₁, cs₁, p₁⟩, hexec, hleave⟩ := Option.bind_eq_some_iff.mp hcall
  exact ⟨s₁, cs₁, p₁, hexec, hleave⟩

theorem low_reset (s : HttpRequestParser) : Low 0 s.reset.parser :=
  ⟨Nat.le_refl 0, Nat.le_refl 0, Nat.le_refl 0⟩

theorem early_execute {n : ℕ} (hearly : Early s.parser.cs s.parser)
    (h : s.execute buffer = some (s', n, rest)) : Early s'.parser.cs s'.parser := by
  by_cases hne : buffer = []
  · rw [HttpRequestParser.execute, httpParserExecute, if_pos hne] at h
    cases h
    exact hearly
  · obtain ⟨s₁, cs₁, p₁, hexec, hleave⟩ := execute_parts hne h
    exact leave_early hleave (early_exec (low_reset s) hearly hexec)

/-- A call of twins of which one takes a byte that the other does not. -/
theorem execute_diverges (h : Twins (querying s.parser.cs) s t)
    (hs : s.parser.uri_relaxed = false) (ht : t.parser.uri_relaxed = true)
    (hearly : Early s.parser.cs s.parser)
    (hdiff : ∃ x ∈ looks buffer s.reset s.parser.cs 0 buffer,
      next true x.1 x.2 ≠ next false x.1 x.2) :
    ∃ s' n rest, s.execute buffer = some (s', n, rest) ∧
      ∀ t' n' rest', t.execute buffer = some (t', n', rest') → n < n' := by
  have hne : buffer ≠ [] := by
    rintro rfl
    obtain ⟨x, hx, -⟩ := hdiff
    cases hx
  obtain ⟨hheaders, s₁, q, hexec, hlt, hlow, hbody, hlater⟩ :=
    exec_diverges (s := s.reset) (t := t.reset) h.reset hs ht (low_reset s) hearly hdiff
  obtain ⟨⟨hcs, hnread, -⟩, -⟩ := kept_exec hexec
  -- the strict machine stops in an error, which `cs` shows only behind the call
  have herror : s₁.parser.hasError = false := by
    rw [HttpParser.hasError, hcs]
    refine decide_eq_false fun hzero => ?_
    rw [show s.parser.cs = 0 from hzero] at hheaders
    cases hheaders
  have hzero : s₁.parser.nread = 0 := hnread
  have hbounds : (s₁.parser.left 0 q).inBounds buffer.length := by
    rw [HttpParser.left_of_ok herror]
    obtain ⟨hmark, hstart, hlen⟩ := hlow
    refine ⟨?_, ?_, ?_, ?_, ?_⟩ <;> simp only <;> omega
  have hread : (s₁.parser.left 0 q).nread = q := by
    rw [HttpParser.left_of_ok herror]
    simp only [hzero, Nat.zero_add]
  refine ⟨{ s₁ with parser := s₁.parser.left 0 q }, q, buffer.drop q, ?_, ?_⟩
  · rw [HttpRequestParser.execute, httpParserExecute_eq hne, hexec, Option.bind_some]
    simp only [leave, if_pos hbounds, Option.map_some, hread]
  · intro t' n' rest' hcall
    obtain ⟨t₁, cs₁, p₁, hexec', hleave⟩ := execute_parts hne hcall
    rw [h.state] at hexec'
    have hkept := (kept_exec hexec').1.2.1
    have hpos := hlater t₁ cs₁ p₁ hexec'
    simp only [leave] at hleave
    split_ifs at hleave
    cases hleave
    -- an error hides the state, and not the count
    have hnext : (t₁.parser.left cs₁ p₁).nread = t₁.parser.nread + p₁ := by
      cases herror' : t₁.parser.hasError with
      | true => rw [HttpParser.left_of_error herror']
      | false => rw [HttpParser.left_of_ok herror']
    omega

/-- **Twins of which one takes a byte that the other does not** report something else. -/
theorem outcomes_ne_of_twins {buffers : List (List UInt8)} (h : Twins (querying s.parser.cs) s t)
    (hs : s.parser.uri_relaxed = false) (ht : t.parser.uri_relaxed = true)
    (hearly : Early s.parser.cs s.parser)
    (hdiff : ∃ x ∈ looked s buffers, next true x.1 x.2 ≠ next false x.1 x.2) :
    outcomes s buffers ≠ outcomes t buffers := by
  induction buffers generalizing s t with
  | nil =>
    obtain ⟨x, hx, -⟩ := hdiff
    cases hx
  | cons buffer buffers ih =>
    rw [outcomes, outcomes]
    -- the first buffer in which they differ is taken to different lengths
    by_cases hfirst : ∃ x ∈ looks buffer s.reset s.parser.cs 0 buffer,
        next true x.1 x.2 ≠ next false x.1 x.2
    · obtain ⟨s', n, rest, hcall, hlater⟩ := execute_diverges h hs ht hearly hfirst
      rw [hcall]
      cases hcall' : t.execute buffer with
      | none => exact fun heq => by cases heq
      | some y =>
        obtain ⟨t', n', rest'⟩ := y
        have hlt := hlater t' n' rest' hcall'
        intro heq
        have hhead := congrArg Outcome.consumed (Option.some.inj (List.cons.inj heq).1)
        exact absurd hhead (Nat.ne_of_lt hlt)
    · push Not at hfirst
      have hcall := execute_twins buffer h ht fun x hx => by
        rw [hs]
        exact hfirst x hx
      obtain ⟨x, hx, hne⟩ := hdiff
      rw [looked] at hx
      have hlast := (List.mem_append.mp hx).resolve_left fun hx => hne (hfirst x hx)
      cases hs' : s.execute buffer with
      | none =>
        rw [hs'] at hlast
        cases hlast
      | some x' =>
        cases ht' : t.execute buffer with
        | none =>
          rw [hs', ht'] at hcall
          cases hcall
        | some y =>
          rw [hs', ht', Option.rel_some_some] at hcall
          rw [hs'] at hlast
          obtain ⟨s₁, n, rest⟩ := x'
          obtain ⟨t₁, y⟩ := y
          obtain ⟨htwins, rfl⟩ := hcall
          intro heq
          exact ih htwins ((relaxed_of_execute hs').trans hs) ((relaxed_of_execute ht').trans ht)
            (early_execute hearly hs') ⟨x, hlast, hne⟩ (List.cons.inj heq).2

/-! ## Which inputs depend on nothing else -/

/-- A parser in memory that is zero but for the flag. -/
def HttpParser.zeroBut (uri_relaxed : Bool) : HttpParser :=
  ⟨0, 0, 0, 0, 0, 0, 0, 0, false, false, uri_relaxed⟩

/-- **What the calls report does not depend on the memory** exactly if the machine without the flag
never stands before a byte that the machine with the flag takes and it does not. -/
theorem memory_independent_iff (buffers : List (List UInt8)) :
    (∀ m₁ m₂ : HttpParser, outcomes (.new m₁) buffers = outcomes (.new m₂) buffers) ↔
      ∀ x ∈ looked (.new (.zeroBut false)) buffers, next true x.1 x.2 = next false x.1 x.2 := by
  constructor
  · intro h x hx
    by_contra hne
    exact outcomes_ne_of_twins (twins_new (.zeroBut false) (.zeroBut true)) rfl rfl (.inr rfl)
      ⟨x, hx, hne⟩ (h _ _)
  · intro h
    have hall : ∀ m : HttpParser,
        outcomes (.new (.zeroBut false)) buffers = outcomes (.new m) buffers := by
      intro m
      refine outcomes_eq_of_twins (twins_new (.zeroBut false) m) fun x hx => ?_
      show next m.uri_relaxed x.1 x.2 = next false x.1 x.2
      cases m.uri_relaxed with
      | false => rfl
      | true => exact h x hx
    intro m₁ m₂
    exact (hall m₁).symm.trans (hall m₂)

/-- A path with `^` in it: without the flag it is an error, with the flag a request. -/
theorem memory_matters :
    outcomes (.new (.zeroBut false)) [bytes "GET /^ HTTP/1.1\r\n\r\n"] =
        [some ⟨true, true, 5, {}⟩] ∧
      outcomes (.new (.zeroBut true)) [bytes "GET /^ HTTP/1.1\r\n\r\n"] =
        [some ⟨false, true, 19, { path := bytes "/^" }⟩] ∧
      ¬ ∀ m₁ m₂ : HttpParser, outcomes (.new m₁) [bytes "GET /^ HTTP/1.1\r\n\r\n"] =
        outcomes (.new m₂) [bytes "GET /^ HTTP/1.1\r\n\r\n"] := by
  have hstrict : outcomes (.new (.zeroBut false)) [bytes "GET /^ HTTP/1.1\r\n\r\n"] =
      [some ⟨true, true, 5, {}⟩] := by decide
  have hrelaxed : outcomes (.new (.zeroBut true)) [bytes "GET /^ HTTP/1.1\r\n\r\n"] =
      [some ⟨false, true, 19, { path := bytes "/^" }⟩] := by decide
  refine ⟨hstrict, hrelaxed, fun h => ?_⟩
  have hsame := h (.zeroBut false) (.zeroBut true)
  rw [hstrict, hrelaxed] at hsame
  exact absurd hsame (by decide)

end Http

end Sylar
