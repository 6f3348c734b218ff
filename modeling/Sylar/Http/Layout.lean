import Sylar.Http.Model

/-!
# The layout of a message

Where the tokens of a message lie, by one scan of the machine over the whole message, and what a
parser sees of them when the message comes in several reads. The order in which the table hands
out tokens is checked once: every state has a mode, and the actions along every edge respect it.

## Main definitions

* `automaton`, `Mode`, `modes`: the machine up to its final states, and the modes of its states
* `Span`, `Layout`, `layout`: the tokens of a message
* `Layout.request`, `Layout.error`: the request that the callbacks make of them

## Main results

* `Layout.Marked`, `marked_scan`: the tokens come in order, each at most once
-/

namespace Sylar

open Foundation

namespace Http

/-! ## Modes -/

/-- The machine up to its final states. -/
def automaton (uri_relaxed : Bool) : Automaton ℕ UInt8 Action where
  next cs c := if cs < 348 then next uri_relaxed cs c else none
  ends := (· = .done)

/-- The tokens that a message has at most once, in their order. -/
inductive Kind
  | method
  | path
  | query
  | fragment
  | version
  deriving DecidableEq, Repr

/-- The modes from which the token has been passed. -/
def Kind.rank : Kind → ℕ
  | .method => 1
  | .path => 2
  | .query => 3
  | .fragment => 4
  | .version => 5

/-- What the machine has behind it: the tokens up to a rank, the start of the query, the name of a
header, the whole message. -/
structure Mode where
  rank : ℕ
  querying : Bool
  named : Bool
  final : Bool
  deriving DecidableEq, Repr

def Mode.pass (m : Mode) (k : Kind) : Option Mode :=
  if m.rank < k.rank then some { m with rank := k.rank } else none

/-- The mode after an action. The method ends at a blank. -/
def Mode.enter (c : UInt8) (m : Mode) : Action → Option Mode
  | .request_method => if c = 32 then m.pass .method else none
  | .request_path => m.pass .path
  | .start_query => some { m with querying := true }
  | .query_string => if m.querying then m.pass .query else none
  | .fragment => m.pass .fragment
  | .http_version => m.pass .version
  | .start_field => some { m with named := false }
  | .write_field => some { m with named := true }
  | .write_value => if m.named then some m else none
  | .done => some { m with final := true }
  | .mark | .start_value | .request_uri | .xml | .json => some m

/-- The second mode demands no more than the first one gives. -/
def Mode.allows (m m' : Mode) : Prop :=
  m.rank ≤ m'.rank ∧ (m'.querying → m.querying) ∧ (m'.named → m.named) ∧ (m.final → m'.final)

instance (m m' : Mode) : Decidable (m.allows m') := by
  unfold Mode.allows
  infer_instance

def rank (cs : ℕ) : ℕ :=
  if 13 ≤ cs ∧ cs ≤ 18 ∨ cs = 348 then 5
  else if 4 ≤ cs ∧ cs ≤ 12 then 4
  else if 20 ≤ cs ∧ cs ≤ 23 then 3
  else if 29 ≤ cs ∧ cs ≤ 32 ∨ 196 ≤ cs ∧ cs ≤ 197 ∨ 199 ≤ cs ∧ cs ≤ 201 ∨ cs = 349 then 2
  else if cs = 3 ∨ cs = 19 ∨ 24 ≤ cs ∧ cs ≤ 28 ∨ 33 ≤ cs ∧ cs ≤ 174 then 1
  else 0

/-- The mode of a state. -/
def mode (cs : ℕ) : Mode where
  rank := rank cs
  querying := 30 ≤ cs ∧ cs ≤ 32
  named := 15 ≤ cs ∧ cs ≤ 16
  final := 348 ≤ cs

/-- The edge respects the modes, ends the machine exactly at a final state, leads to no error, and
reads only a blank where the method ends. -/
def Edge.respects (e : Edge) (cs : ℕ) : Bool :=
  ((e.actions.foldlM (Mode.enter 32) (mode cs)).any fun m => decide (m.allows (mode e.target))) &&
    (e.target != 0 && decide (348 ≤ e.target) == decide (.done ∈ e.actions)) &&
    (decide (.request_method ∉ e.actions) || e.lo == 32 && e.hi == 32)

theorem table_respects :
    ((table.take 348).zipIdx.all fun row => row.1.all fun e => e.respects row.2) = true := by
  rw [← List.take_append_drop 100 (table.take 348).zipIdx, List.all_append, Bool.and_eq_true]
  exact ⟨by decide +kernel, by decide +kernel⟩

theorem Edge.respects_of_mem {cs : ℕ} (hcs : cs < 348) {e : Edge} (he : e ∈ table.getD cs []) :
    e.respects cs = true := by
  have htable := List.all_eq_true.mp table_respects
  rw [List.getD_eq_getElem?_getD] at he
  cases hrow : table[cs]? with
  | none =>
    rw [hrow] at he
    cases he
  | some row =>
    rw [hrow] at he
    refine List.all_eq_true.mp (htable (row, cs) ?_) e he
    rw [List.mem_zipIdx_iff_getElem?, List.getElem?_take, if_pos hcs]
    exact hrow

theorem Mode.enter_eq {c : UInt8} {m : Mode} {a : Action} (h : a = .request_method → c = 32) :
    m.enter c a = m.enter 32 a := by
  cases a with
  | request_method => rw [h rfl]
  | _ => rfl

theorem Mode.foldlM_enter {c : UInt8} {m : Mode} {acts : List Action}
    (h : .request_method ∈ acts → c = 32) :
    acts.foldlM (Mode.enter c) m = acts.foldlM (Mode.enter 32) m := by
  induction acts generalizing m with
  | nil => rfl
  | cons a acts ih =>
    have ha : m.enter c a = m.enter 32 a := Mode.enter_eq fun heq => h (by simp [heq])
    rw [List.foldlM_cons, List.foldlM_cons, ha]
    exact congrArg _ (funext fun n => ih fun hmem => h (List.mem_cons_of_mem _ hmem))

/-- What every edge of the table respects. -/
theorem next_respects {uri_relaxed : Bool} {cs cs' : ℕ} {c : UInt8} {acts : List Action}
    (hcs : cs < 348) (h : next uri_relaxed cs c = some (cs', acts)) :
    (∃ m, acts.foldlM (Mode.enter c) (mode cs) = some m ∧ m.allows (mode cs')) ∧
      cs' ≠ 0 ∧ (348 ≤ cs' ↔ .done ∈ acts) := by
  unfold next at h
  obtain ⟨e, he, heq⟩ := Option.map_eq_some_iff.mp h
  obtain ⟨rfl, rfl⟩ := Prod.mk.inj heq
  have hrespects := Edge.respects_of_mem hcs (List.mem_of_find?_eq_some he)
  have hbyte := List.find?_some he
  simp only [Edge.respects, Bool.and_eq_true, Bool.or_eq_true, beq_iff_eq, bne_iff_ne,
    decide_eq_true_eq, decide_eq_decide] at hrespects hbyte
  obtain ⟨⟨hmode, htarget, hdone⟩, hmethod⟩ := hrespects
  have hblank : .request_method ∈ e.actions → c = 32 := fun hmem => by
    obtain ⟨hlo, hhi⟩ := hmethod.resolve_left fun hnot => hnot hmem
    have hc : c.toNat = 32 := by omega
    exact UInt8.toNat_inj.mp hc
  refine ⟨?_, htarget, hdone⟩
  rw [Mode.foldlM_enter hblank]
  obtain ⟨m, hm, hallows⟩ := (Option.any_eq_true _ _).mp hmode
  exact ⟨m, hm, of_decide_eq_true hallows⟩

/-- The modes of the machine. -/
def modes (uri_relaxed : Bool) : Automaton.Annotation (automaton uri_relaxed) Mode where
  mode := mode
  enter := fun c m a => m.enter c a
  allows := Mode.allows
  edge := fun {cs c cs' acts} h => by
    simp only [automaton] at h
    split_ifs at h with hcs
    exact (next_respects hcs h).1

/-- The verdict of a scan tells whether a final state is reached. -/
theorem verdict_final {uri_relaxed : Bool} {cs cs' p : ℕ} {bs : List UInt8} (hcs : cs ≠ 0)
    (hlt : cs < 348) (h : ((automaton uri_relaxed).scan cs p bs).verdict.state? = some cs') :
    cs' ≠ 0 ∧ (cs' < 348 ↔ ((automaton uri_relaxed).scan cs p bs).verdict = .more cs') := by
  induction bs generalizing cs p with
  | nil =>
    obtain rfl := Option.some.inj h
    exact ⟨hcs, by simp [hlt]⟩
  | cons b bs ih =>
    rcases Automaton.scan_cons (A := automaton uri_relaxed) cs b with
      hnext | ⟨t, acts, hnext, hends⟩
    · rw [Automaton.scan_error hnext] at h
      cases h
    obtain ⟨ht, hdone⟩ : t ≠ 0 ∧ (348 ≤ t ↔ .done ∈ acts) := by
      simp only [automaton, if_pos hlt] at hnext
      exact (next_respects hlt hnext).2
    have hany : acts.any (automaton uri_relaxed).ends = true ↔ .done ∈ acts := by
      simp [automaton]
    rcases hends with hends | hends
    · rw [Automaton.scan_ended hnext hends] at h ⊢
      obtain rfl := Option.some.inj h
      refine ⟨ht, iff_of_false (Nat.not_lt.mpr (hdone.mpr (hany.mp hends))) fun hv => nomatch hv⟩
    · rw [Automaton.scan_more hnext hends] at h ⊢
      refine ih ht (Nat.lt_of_not_le fun hle => ?_) h
      rw [hany.mpr (hdone.mp hle)] at hends
      cases hends

/-! ## Tokens -/

/-- The bytes from `start` up to `stop`. -/
structure Span where
  start : ℕ
  stop : ℕ
  deriving DecidableEq, Repr

def Span.text (msg : List UInt8) (s : Span) : List UInt8 :=
  (msg.drop s.start).take (s.stop - s.start)

/-- A header field. -/
structure Field where
  name : Span
  value : Span
  deriving DecidableEq, Repr

/-- The marks of the machine and the tokens it has handed out, as positions in the whole message. -/
structure Layout where
  mark : ℕ := 0
  field_start : ℕ := 0
  field_end : ℕ := 0
  query_start : ℕ := 0
  token : Kind → Option Span := fun _ => none
  fields : List Field := []

def Layout.add (l : Layout) (k : Kind) (s : Span) : Layout :=
  { l with token := Function.update l.token k (some s) }

/-- What an action says of the layout. -/
def Layout.note (l : Layout) (e : Event UInt8 Action) : Layout :=
  match e.action with
  | .mark | .start_value => { l with mark := e.pos }
  | .start_field => { l with field_start := e.pos }
  | .write_field => { l with field_end := e.pos }
  | .write_value =>
    { l with fields := l.fields ++ [⟨⟨l.field_start, l.field_end⟩, ⟨l.mark, e.pos⟩⟩] }
  | .request_method => l.add .method ⟨l.mark, e.pos⟩
  | .request_path => l.add .path ⟨l.mark, e.pos⟩
  | .start_query => { l with query_start := e.pos }
  | .query_string => l.add .query ⟨l.query_start, e.pos⟩
  | .fragment => l.add .fragment ⟨l.mark, e.pos⟩
  | .http_version => l.add .version ⟨l.mark, e.pos⟩
  | .request_uri | .done | .xml | .json => l

/-- The layout of a message. -/
def layout (uri_relaxed : Bool) (msg : List UInt8) : Layout :=
  ((automaton uri_relaxed).scan 1 0 msg).events.foldl Layout.note {}

/-- The marks are behind position `p`, the tokens are as the mode says, and each token lies behind
`p`. -/
structure Layout.Marked (p : ℕ) (m : Mode) (l : Layout) : Prop where
  mark : l.mark ≤ p
  field_start : l.field_start ≤ p
  field_end : l.field_end ≤ p
  query_start : l.query_start ≤ p
  passed : ∀ k, (l.token k).isSome → k.rank ≤ m.rank
  tokens : ∀ k s, l.token k = some s → s.start ≤ s.stop ∧ s.stop ≤ p
  fields : ∀ f ∈ l.fields, f.name.stop ≤ p ∧ f.value.start ≤ f.value.stop ∧ f.value.stop ≤ p

namespace Layout

variable {l l' : Layout} {m m' : Mode} {p : ℕ} {k : Kind} {s : Span} {c : UInt8} {a : Action}

@[simp] theorem token_add_self : (l.add k s).token k = some s := Function.update_self ..

theorem token_add_of_ne {k' : Kind} (h : k' ≠ k) : (l.add k s).token k' = l.token k' :=
  Function.update_of_ne h ..

theorem pass_eq (h : m.pass k = some m') : m.rank < k.rank ∧ m' = { m with rank := k.rank } := by
  unfold Mode.pass at h
  split_ifs at h with hlt
  exact ⟨hlt, (Option.some.inj h).symm⟩

/-- A token that may still come has not come yet. -/
theorem Marked.fresh (h : l.Marked p m) (hpass : m.pass k = some m') {k' : Kind}
    (hk : k.rank ≤ k'.rank) : l.token k' = none := by
  by_contra hsome
  have hle := h.passed k' (Option.isSome_iff_ne_none.mpr hsome)
  exact absurd (pass_eq hpass).1 (by omega)

theorem Marked.add (h : l.Marked p m) (hpass : m.pass k = some m') (hs : s.start ≤ s.stop)
    (hp : s.stop ≤ p) : (l.add k s).Marked p m' := by
  obtain ⟨hlt, rfl⟩ := pass_eq hpass
  refine { h with passed := fun k' hk' => ?_, tokens := fun k' s' hs' => ?_ }
  · rcases eq_or_ne k' k with rfl | hne
    · exact Nat.le_refl _
    · rw [token_add_of_ne hne] at hk'
      exact Nat.le_trans (h.passed k' hk') (Nat.le_of_lt hlt)
  · rcases eq_or_ne k' k with rfl | hne
    · rw [token_add_self] at hs'
      obtain rfl := Option.some.inj hs'
      exact ⟨hs, hp⟩
    · rw [token_add_of_ne hne] at hs'
      exact h.tokens k' s' hs'

/-- **An action that its mode enters** keeps the layout in order, and every token in it. -/
theorem Marked.note (h : l.Marked p m) (henter : m.enter c a = some m') :
    (l.note ⟨p, c, a⟩).Marked p m' ∧
      ∀ k s, l.token k = some s → (l.note ⟨p, c, a⟩).token k = some s := by
  -- a text is noted once, since the mode allows it once
  have hadd : ∀ {k s}, m.pass k = some m' → s.start ≤ s.stop → s.stop ≤ p →
      (l.add k s).Marked p m' ∧ ∀ k' s', l.token k' = some s' →
        (l.add k s).token k' = some s' := by
    intro k s hpass hs hp
    refine ⟨h.add hpass hs hp, fun k' s' hs' => ?_⟩
    have hne : k' ≠ k := by
      rintro rfl
      rw [h.fresh hpass (Nat.le_refl _)] at hs'
      cases hs'
    rwa [token_add_of_ne hne]
  cases a with
  | mark | start_value =>
    obtain rfl := Option.some.inj henter
    exact ⟨{ h with mark := Nat.le_refl p }, fun _ _ hs => hs⟩
  | start_field =>
    obtain rfl := Option.some.inj henter
    exact ⟨{ h with field_start := Nat.le_refl p }, fun _ _ hs => hs⟩
  | write_field =>
    obtain rfl := Option.some.inj henter
    exact ⟨{ h with field_end := Nat.le_refl p }, fun _ _ hs => hs⟩
  | write_value =>
    simp only [Mode.enter] at henter
    split_ifs at henter
    obtain rfl := Option.some.inj henter
    refine ⟨{ h with fields := fun f hf => ?_ }, fun _ _ hs => hs⟩
    rcases List.mem_append.mp hf with hf | hf
    · exact h.fields f hf
    · obtain rfl := List.mem_singleton.mp hf
      exact ⟨h.field_end, h.mark, Nat.le_refl p⟩
  | request_method =>
    simp only [Mode.enter] at henter
    split_ifs at henter
    exact hadd henter h.mark (Nat.le_refl p)
  | request_path => exact hadd henter h.mark (Nat.le_refl p)
  | start_query =>
    obtain rfl := Option.some.inj henter
    exact ⟨{ h with query_start := Nat.le_refl p }, fun _ _ hs => hs⟩
  | query_string =>
    simp only [Mode.enter] at henter
    split_ifs at henter
    exact hadd henter h.query_start (Nat.le_refl p)
  | fragment => exact hadd henter h.mark (Nat.le_refl p)
  | http_version => exact hadd henter h.mark (Nat.le_refl p)
  | request_uri | done | xml | json =>
    obtain rfl := Option.some.inj henter
    exact ⟨{ h with }, fun _ _ hs => hs⟩

theorem Marked.allows (h : l.Marked p m) (hallows : m.allows m') : l.Marked (p + 1) m' where
  mark := Nat.le_succ_of_le h.mark
  field_start := Nat.le_succ_of_le h.field_start
  field_end := Nat.le_succ_of_le h.field_end
  query_start := Nat.le_succ_of_le h.query_start
  passed := fun k hk => Nat.le_trans (h.passed k hk) hallows.1
  tokens := fun k s hs => ⟨(h.tokens k s hs).1, Nat.le_succ_of_le (h.tokens k s hs).2⟩
  fields := fun f hf => by
    obtain ⟨hname, hvalue, hstop⟩ := h.fields f hf
    exact ⟨Nat.le_succ_of_le hname, hvalue, Nat.le_succ_of_le hstop⟩

theorem marked_empty : ({} : Layout).Marked 0 m where
  mark := Nat.le_refl 0
  field_start := Nat.le_refl 0
  field_end := Nat.le_refl 0
  query_start := Nat.le_refl 0
  passed := fun _ hk => nomatch hk
  tokens := fun _ _ hs => nomatch hs
  fields := fun _ hf => nomatch hf

/-- **A scan hands out the tokens in order**, each at most once: none that there was is lost. -/
theorem Marked.scan_stop {cs : ℕ} (uri_relaxed : Bool) (bs : List UInt8)
    (h : l.Marked p (mode cs)) :
    ∃ m, (∀ cs', ((automaton uri_relaxed).scan cs p bs).verdict.state? = some cs' → m = mode cs') ∧
      (((automaton uri_relaxed).scan cs p bs).events.foldl Layout.note l).Marked
          ((automaton uri_relaxed).scan cs p bs).pos m ∧
        ∀ k s, l.token k = some s →
          (((automaton uri_relaxed).scan cs p bs).events.foldl Layout.note l).token k = some s := by
  refine (modes uri_relaxed).invariant_stop bs
    (R := fun q m (l' : Layout) => l'.Marked q m ∧ ∀ k s, l.token k = some s → l'.token k = some s)
    (fun q c m m' a l' _ _ henter hl' => ?_) (fun q m m' l' _ _ hallows hl' => ?_)
    ⟨h, fun _ _ hs => hs⟩
  · obtain ⟨hmarked, hkept⟩ := hl'.1.note henter
    exact ⟨hmarked, fun k s hs => hkept k s (hl'.2 k s hs)⟩
  · exact ⟨hl'.1.allows hallows, hl'.2⟩

theorem Marked.scan {uri_relaxed : Bool} {cs cs' : ℕ} {bs : List UInt8} (h : l.Marked p (mode cs))
    (hstate : ((automaton uri_relaxed).scan cs p bs).verdict.state? = some cs') :
    (((automaton uri_relaxed).scan cs p bs).events.foldl Layout.note l).Marked
        ((automaton uri_relaxed).scan cs p bs).pos (mode cs') ∧
      ∀ k s, l.token k = some s →
        (((automaton uri_relaxed).scan cs p bs).events.foldl Layout.note l).token k = some s := by
  obtain ⟨m, hm, hend⟩ := h.scan_stop uri_relaxed bs
  exact hm cs' hstate ▸ hend

end Layout

/-! ## Reads -/

/-- The start of the read that holds a byte of a message that comes in several reads. -/
def readStart : List (List UInt8) → ℕ → ℕ
  | [], _ => 0
  | read :: reads, p =>
    if p < read.length then 0 else read.length + readStart reads (p - read.length)

/-- What is left of a token in the read in which it ends. -/
def Span.clip (start : ℕ → ℕ) (s : Span) : Span := ⟨max s.start (start s.stop), s.stop⟩

/-- The query: its mark keeps its offset when the next read comes. -/
def Span.carry (start : ℕ → ℕ) (s : Span) : Span :=
  ⟨start s.stop + (s.start - start s.start), s.stop⟩

/-- The mark of the query is not behind its end in the read in which it ends. -/
def Span.Carried (start : ℕ → ℕ) (s : Span) : Prop :=
  s.start - start s.start ≤ s.stop - start s.stop

/-- A header field whose reads start at `start`: what is left of its name where the value ends. -/
def Field.insert (msg : List UInt8) (start : ℕ → ℕ)
    (headers : List (List UInt8 × List UInt8)) (f : Field) : List (List UInt8 × List UInt8) :=
  let key := (⟨max f.name.start (start f.value.stop), f.name.stop⟩ : Span).text msg
  if key = [] then headers else setHeader key ((f.value.clip start).text msg) headers

namespace Layout

/-- The method that the callback makes out in the message, read in pieces. -/
def method (msg : List UInt8) (start : ℕ → ℕ) (l : Layout) : Option HttpMethod :=
  (l.token .method).map fun s => charsToHttpMethod ((s.clip start).text msg)

def version (msg : List UInt8) (start : ℕ → ℕ) (l : Layout) : Option (Option UInt8) :=
  (l.token .version).map fun s =>
    versionOf ((s.clip start).text msg) ((s.clip start).text msg).length

def headers (msg : List UInt8) (start : ℕ → ℕ) (l : Layout) : List (List UInt8 × List UInt8) :=
  l.fields.foldl (Field.insert msg start) []

/-- The request that the callbacks make of a message, read in pieces. -/
def request (msg : List UInt8) (start : ℕ → ℕ) (l : Layout) : HttpRequest where
  method := ((l.method msg start).filter (· ≠ .invalid_method)).getD .get
  version := ((l.version msg start).join).getD 0x11
  path := ((l.token .path).map fun s => (s.clip start).text msg).getD (bytes "/")
  query := ((l.token .query).map fun s => (s.carry start).text msg).getD []
  fragment := ((l.token .fragment).map fun s => (s.clip start).text msg).getD []
  headers := l.headers msg start

/-- The error that the callbacks set. -/
def error (msg : List UInt8) (start : ℕ → ℕ) (l : Layout) : ℕ :=
  if l.version msg start = some none then 1001
  else if l.method msg start = some .invalid_method then 1000
  else 0

/-- No callback throws. -/
def Carried (start : ℕ → ℕ) (l : Layout) : Prop := ∀ s ∈ l.token .query, s.Carried start

end Layout

end Http

end Sylar
