import Sylar.Http.Segmentation

/-!
# The ranges that callbacks get

A callback gets a pointer into the buffer of the call and a length, which is the difference of two
offsets. The marks are set back to the front of the buffer at the start of a call, so that a token
that began in an earlier buffer is what this buffer holds of it; the start of the query is not. A
query that ends in a later buffer than the one it starts in therefore reaches from its offset in
the earlier buffer to its end in the later one, and if the end comes first the length wraps around.

All ranges but that of the query lie in the buffer, whatever came before. Whether that one does is
a matter of two offsets, which the layout of the whole input knows.

## Main definitions

* `Range`, `handed`: a range, and the ranges that an action hands to its callback
* `handovers`: the ranges of the calls on buffers, up to the end of the header

## Main results

* `handed_inside_iff`: the ranges of an action are inside unless its callback throws
* `ranges_inside_iff`: the inputs all of whose ranges lie in their buffers
-/

namespace Sylar

open Foundation

namespace Http

variable {msg buffer bs : List UInt8} {start : ℕ → ℕ} {c q : ℕ} {m m' : Mode} {l : Layout}
  {s : HttpRequestParser} {uri_relaxed : Bool}

/-! ## Ranges -/

structure Range where
  offset : ℕ
  length : ℕ
  deriving DecidableEq, Repr

def Range.Inside (r : Range) (buffer : List UInt8) : Prop := r.offset + r.length ≤ buffer.length

instance (r : Range) (buffer : List UInt8) : Decidable (r.Inside buffer) :=
  inferInstanceAs (Decidable (r.offset + r.length ≤ buffer.length))

/-- The ranges that an action at the byte `p` of the buffer hands to its callback. -/
def handed (buffer : List UInt8) (p : ℕ) (s : HttpRequestParser) : Action → List Range
  | .write_value =>
    [⟨s.parser.field_start, s.parser.field_len⟩, ⟨s.parser.mark, len s.parser.mark p⟩]
  | .request_method | .request_uri | .fragment | .http_version | .request_path =>
    [⟨s.parser.mark, len s.parser.mark p⟩]
  | .query_string => [⟨s.parser.query_start, len s.parser.query_start p⟩]
  | .done =>
    -- `header_done` gets what stands behind the header
    if s.parser.xml_sent || s.parser.json_sent then [] else [⟨p + 1, buffer.length - p - 1⟩]
  | .mark | .start_field | .write_field | .start_value | .start_query | .xml | .json => []

/-- The ranges of the actions of an edge, up to one that throws. -/
def actionRanges (buffer : List UInt8) (p : ℕ) : HttpRequestParser → List Action → List Range
  | _, [] => []
  | s, a :: actions =>
    handed buffer p s a ++
      match act buffer p s a with
      | none => []
      | some s' => actionRanges buffer p s' actions

/-- The ranges of the machine on the rest of the buffer, from the byte `p`. -/
def execRanges (buffer : List UInt8) : HttpRequestParser → ℕ → ℕ → List UInt8 → List Range
  | _, _, _, [] => []
  | s, cs, p, c :: rest =>
    match next s.parser.uri_relaxed cs c with
    | none => []
    | some (cs', actions) =>
      actionRanges buffer p s actions ++
        match actions.foldlM (act buffer p) s with
        | none => []
        | some s' => if .done ∈ actions then [] else execRanges buffer s' cs' (p + 1) rest

/-- The ranges of a call. -/
def HttpRequestParser.ranges (s : HttpRequestParser) (buffer : List UInt8) : List Range :=
  execRanges buffer s.reset s.parser.cs 0 buffer

/-- The ranges of calls on one buffer after the other, each with its buffer, as long as the header
is incomplete. -/
def handovers : HttpRequestParser → List (List UInt8) → List (List UInt8 × Range)
  | _, [] => []
  | s, buffer :: buffers =>
    (s.ranges buffer).map (fun r => (buffer, r)) ++
      match s.execute buffer with
      | none => []
      | some (s', _) => if s'.isFinished then [] else handovers s' buffers

/-! ## The ranges of a scan -/

/-- An event, with the ranges that its action hands over. -/
def collect (buffer : List UInt8) (c : ℕ) (t : Option HttpRequestParser × List Range)
    (e : Event UInt8 Action) : Option HttpRequestParser × List Range :=
  (play buffer c t.1 e, t.2 ++ t.1.elim [] fun s => handed buffer (e.pos - c) s e.action)

theorem foldl_collect_none (events : List (Event UInt8 Action)) (ranges : List Range) :
    events.foldl (collect buffer c) (none, ranges) = (none, ranges) := by
  induction events with
  | nil => rfl
  | cons e events ih =>
    rw [List.foldl_cons, show collect buffer c (none, ranges) e = (none, ranges ++ []) from rfl,
      List.append_nil]
    exact ih

theorem foldl_collect_events (b : UInt8) (acts : List Action) (ranges : List Range) :
    (Automaton.events q b acts).foldl (collect buffer c) (some s, ranges) =
      (acts.foldlM (act buffer (q - c)) s, ranges ++ actionRanges buffer (q - c) s acts) := by
  induction acts generalizing s ranges with
  | nil => rw [actionRanges, List.append_nil]; rfl
  | cons a acts ih =>
    rw [Automaton.events, List.map_cons, List.foldl_cons, List.foldlM_cons, actionRanges]
    cases h : act buffer (q - c) s a with
    | none =>
      have hcollect : collect buffer c (some s, ranges) ⟨q, b, a⟩ =
          (none, ranges ++ handed buffer (q - c) s a) := Prod.ext h rfl
      rw [hcollect, foldl_collect_none, List.append_nil]
      rfl
    | some s' =>
      have hcollect : collect buffer c (some s, ranges) ⟨q, b, a⟩ =
          (some s', ranges ++ handed buffer (q - c) s a) := Prod.ext h rfl
      rw [hcollect, ← List.append_assoc]
      exact ih _

/-- The ranges of the machine are those of the scan. -/
theorem execRanges_eq (buffer bs : List UInt8) {cs p : ℕ} (hcs : cs < 348) (hp : c ≤ p)
    (hrelaxed : s.parser.uri_relaxed = uri_relaxed) (ranges : List Range) :
    (((automaton uri_relaxed).scan cs p bs).events.foldl (collect buffer c) (some s, ranges)).2 =
      ranges ++ execRanges buffer s cs (p - c) bs := by
  induction bs generalizing s cs p ranges with
  | nil => exact (List.append_nil ranges).symm
  | cons b bs ih =>
    have hauto : (automaton uri_relaxed).next cs b = next uri_relaxed cs b := if_pos hcs
    rw [execRanges, hrelaxed]
    cases hnext : next uri_relaxed cs b with
    | none =>
      rw [Automaton.scan_error (hauto.trans hnext)]
      exact (List.append_nil ranges).symm
    | some r =>
      obtain ⟨cs', acts⟩ := r
      have hany : acts.any (automaton uri_relaxed).ends = decide (.done ∈ acts) := by
        rw [Bool.eq_iff_iff]
        simp [automaton]
      simp only
      by_cases hdone : .done ∈ acts
      · rw [Automaton.scan_ended (hauto.trans hnext) (by rw [hany]; exact decide_eq_true hdone),
          foldl_collect_events, ← List.append_assoc]
        cases acts.foldlM (act buffer (p - c)) s with
        | none => exact (List.append_nil _).symm
        | some s' =>
          simp only [if_pos hdone]
          exact (List.append_nil _).symm
      · rw [Automaton.scan_more (hauto.trans hnext) (by rw [hany]; exact decide_eq_false hdone)]
        simp only [List.foldl_append, foldl_collect_events]
        rw [← List.append_assoc]
        cases hacts : acts.foldlM (act buffer (p - c)) s with
        | none => rw [foldl_collect_none, List.append_nil]
        | some s' =>
          have hcs' : cs' < 348 :=
            Nat.lt_of_not_le fun hle => hdone ((next_respects hcs hnext).2.2.mp hle)
          have hplay := foldl_play_events buffer (c := c) (q := p) (s := s) b acts
          simp only
          rw [if_neg hdone, show p - c + 1 = p + 1 - c by omega]
          exact ih hcs' (by omega) ((kept_play (hplay.trans hacts)).2.2.trans hrelaxed) _

/-! ## The ranges of an action -/

/-- The range from a mark to the byte `p` lies in the buffer exactly if the mark is not behind. -/
theorem inside_len_iff {offset p : ℕ} (hp : p ≤ buffer.length) (hlen : buffer.length < 2 ^ 64) :
    (⟨offset, len offset p⟩ : Range).Inside buffer ↔ offset ≤ p := by
  unfold Range.Inside len
  split_ifs with hle
  · simp only [hle, iff_true]
    omega
  · simp only [hle, iff_false]
    omega

theorem isSome_str_iff {offset p : ℕ} (hp : p ≤ buffer.length) (hlen : buffer.length < 2 ^ 64)
    (hoffset : offset < 2 ^ 64) :
    (str (buffer.drop offset) (len offset p)).isSome = true ↔ offset ≤ p := by
  unfold str len
  rw [List.length_drop]
  by_cases hle : offset ≤ p
  · rw [if_pos hle, if_pos (by omega)]
    simp [hle]
  · rw [if_neg hle, if_neg (by omega)]
    simp [hle]

/-- **The ranges of an action** lie in the buffer, unless its callback throws. -/
theorem handed_inside_iff {b : UInt8} {a : Action} (h : Follows msg start c buffer.length m l s)
    (hmarked : l.Marked q m) (henter : m.enter b a = some m') (hbuf : buffer <+: msg.drop c)
    (hc : c ≤ q) (hb : buffer[q - c]? = some b) (hsize : Sized msg start)
    (hlen : buffer.length < 2 ^ 64) :
    (∀ r ∈ handed buffer (q - c) s a, r.Inside buffer) ↔
      (act buffer (q - c) s a).isSome = true := by
  obtain ⟨hlt, -⟩ := List.getElem?_eq_some_iff.mp hb
  have hmark : s.parser.mark ≤ q - c := h.mark ▸ Nat.sub_le_sub_right hmarked.mark c
  have hinside := (inside_len_iff hlt.le hlen).mpr hmark
  have hstr := (isSome_str_iff hlt.le hlen (Nat.lt_of_le_of_lt hmark (by omega))).mpr hmark
  cases a with
  | mark | start_field | write_field | start_value | start_query | xml | json =>
    simp [handed, act]
  | request_method | request_uri | http_version =>
    simpa [handed, act] using hinside
  | fragment | request_path =>
    simp only [handed, act, onRequestFragment, onRequestPath, Option.isSome_map, hstr,
      List.forall_mem_singleton, iff_true]
    exact hinside
  -- the length of the name was written in this buffer, so the name lies in it
  | write_value =>
    simp only [Mode.enter] at henter
    split_ifs at henter with hnamed
    have hend := hmarked.field_end
    have hstart := hmarked.field_start
    have hlength := h.field_len hnamed
    have hname : s.parser.field_start + s.parser.field_len ≤ buffer.length := by
      rw [h.field_start, hlength]
      omega
    have hfield : (str (buffer.drop s.parser.field_start) s.parser.field_len).isSome = true := by
      rw [str, List.length_drop, if_pos (by omega)]
      rfl
    obtain ⟨key, hkey⟩ := Option.isSome_iff_exists.mp hfield
    have hsome : (act buffer (q - c) s .write_value).isSome = true := by
      simp only [act, onRequestHttpField, hkey, Option.bind_some]
      split_ifs
      · rfl
      · rw [Option.isSome_map]
        exact hstr
    rw [hsome]
    simp only [handed, List.forall_mem_cons, List.not_mem_nil, iff_true]
    exact ⟨hname, hinside, fun _ hr => hr.elim⟩
  -- the only mark that may be one of an earlier buffer
  | query_string =>
    simp only [Mode.enter] at henter
    split_ifs at henter with hquerying
    have hle := hbuf.length_le
    rw [List.length_drop] at hle
    have hstop := hmarked.query_start
    have hoffset : s.parser.query_start < 2 ^ 64 := by
      have hstart := hsize l.query_start (by omega)
      rw [h.query_start hquerying]
      omega
    simp only [handed, act, onRequestQueryString, Option.isSome_map, List.forall_mem_singleton]
    rw [inside_len_iff hlt.le hlen, isSome_str_iff hlt.le hlen hoffset]
  | done =>
    simp only [handed, act, Option.isSome_some, iff_true]
    intro r hr
    split_ifs at hr
    · cases hr
    · obtain rfl := List.mem_singleton.mp hr
      simp only [Range.Inside]
      omega

/-- **The ranges of a scan** lie in the buffer exactly if no query throws. -/
theorem Follows.ranges_iff {cs : ℕ} (uri_relaxed : Bool)
    (h : Follows msg start c buffer.length (mode cs) l s) (hmarked : l.Marked c (mode cs))
    (hbuf : buffer <+: msg.drop c) (hstart : ∀ q, c ≤ q → q < c + buffer.length → start q = c)
    (hsize : Sized msg start) (hlen : buffer.length < 2 ^ 64) :
    (∀ r ∈ (((automaton uri_relaxed).scan cs c buffer).events.foldl (collect buffer c)
        (some s, [])).2, r.Inside buffer) ↔
      (((automaton uri_relaxed).scan cs c buffer).events.foldl Layout.note l).Carried start := by
  -- the layout, the parser and the ranges, side by side
  have hinv := (modes uri_relaxed).invariant_stop buffer (p := c) (s := cs)
    (R := fun q m (t : Layout × Option HttpRequestParser × List Range) =>
      t.1.Marked q m ∧ Tracks msg start c buffer.length m t.1 t.2.1 ∧
        ((∀ r ∈ t.2.2, r.Inside buffer) ↔ t.2.1.isSome = true))
    (f := fun t e => (t.1.note e, collect buffer c t.2 e))
    (fun q b m m' a t hc hb henter ht => ?_) (fun q m m' t _ _ hallows ht => ?_)
    (t := (l, some s, [])) ⟨hmarked, h, by simp⟩
  · obtain ⟨m', -, hend⟩ := hinv
    rw [foldl_pair] at hend
    obtain ⟨-, htracks, hranges⟩ := hend
    rw [hranges]
    simp only at htracks ⊢
    generalize (((automaton uri_relaxed).scan cs c buffer).events.foldl (collect buffer c)
      (some s, [])).1 = o at htracks ⊢
    cases o with
    | none => exact iff_of_false (by simp) htracks
    | some s' => exact iff_of_true rfl htracks.carried
  · obtain ⟨l, o, ranges⟩ := t
    obtain ⟨hmarked, htracks, hranges⟩ := ht
    obtain ⟨hnote, hkept⟩ := hmarked.note henter
    refine ⟨hnote, ?_, ?_⟩
    · cases o with
      | none => exact fun hall => htracks fun sp hsp => hall sp (hkept .query sp hsp)
      | some s =>
        have hlt := (List.getElem?_eq_some_iff.mp hb).1
        exact htracks.act hmarked henter hbuf hc hb (hstart q hc (by omega)) hsize hlen
    · cases o with
      | none => simpa [collect, play] using hranges
      | some s =>
        have hhanded := handed_inside_iff htracks hmarked henter hbuf hc hb hsize hlen
        simp only [collect, play, Option.elim_some, Option.bind_some, List.forall_mem_append]
        rw [hranges, hhanded]
        simp
  · obtain ⟨l, o, ranges⟩ := t
    obtain ⟨hmarked, htracks, hranges⟩ := ht
    refine ⟨hmarked.allows hallows, ?_, hranges⟩
    cases o with
    | none => exact htracks
    | some s => exact htracks.allows hallows

/-! ## The ranges of a run -/

/-- The ranges of a call. -/
theorem Between.ranges_iff (h : Between msg start c l s)
    (hrelaxed : s.parser.uri_relaxed = uri_relaxed) (hne : buffer ≠ [])
    (hbuf : buffer <+: msg.drop c) (hstart : ∀ q, c ≤ q → q < c + buffer.length → start q = c)
    (hsize : Sized msg start) : (∀ r ∈ s.ranges buffer, r.Inside buffer) ↔
      (((automaton uri_relaxed).scan s.parser.cs c buffer).events.foldl Layout.note l).Carried
        start := by
  have hfollows : Follows msg start c buffer.length (mode s.parser.cs) l s.reset := h.follows hne
  have hscan := hfollows.ranges_iff uri_relaxed h.marked hbuf hstart hsize
    (length_of_sized hsize hbuf hne hstart)
  have hexec := execRanges_eq buffer buffer h.state.2 (Nat.le_refl c)
    (show s.reset.parser.uri_relaxed = uri_relaxed from hrelaxed) []
  rw [hexec, List.nil_append, Nat.sub_self] at hscan
  exact hscan

/-- Whether a parser has finished shows in its state. -/
theorem isFinished_iff (s : HttpRequestParser) :
    s.isFinished = true ↔ s.parser.cs = 0 ∨ 348 ≤ s.parser.cs := by
  unfold HttpRequestParser.isFinished HttpParser.finish HttpParser.hasError HttpParser.isFinished
  by_cases hzero : s.parser.cs = 0
  · simp [hzero]
  · by_cases hfinal : 348 ≤ s.parser.cs <;> simp [hzero, hfinal]

/-- A token that throws is not forgotten. -/
theorem not_carried_scan {cs p : ℕ} (hmarked : l.Marked p (mode cs)) (h : ¬ l.Carried start) :
    ¬ (((automaton uri_relaxed).scan cs p bs).events.foldl Layout.note l).Carried start := by
  obtain ⟨-, -, -, hkept⟩ := hmarked.scan_stop uri_relaxed bs
  exact fun hall => h fun sp hsp => hall sp (hkept .query sp hsp)

/-- **The ranges of calls** on buffers that make up the rest of a message. -/
theorem Between.handovers_iff {buffers : List (List UInt8)} (h : Between msg start c l s)
    (hrelaxed : s.parser.uri_relaxed = uri_relaxed) (hmsg : buffers.flatten = msg.drop c)
    (hsize : Sized msg start)
    (hstart : ∀ q, c ≤ q → start q = c + readStart buffers (q - c)) :
    (∀ x ∈ handovers s buffers, x.2.Inside x.1) ↔
      (((automaton uri_relaxed).scan s.parser.cs c buffers.flatten).events.foldl Layout.note
        l).Carried start := by
  induction buffers generalizing c l s with
  | nil => exact iff_of_true (fun _ hx => absurd hx List.not_mem_nil) h.carried
  | cons buffer buffers ih =>
    rw [handovers, List.forall_mem_append, List.forall_mem_map]
    by_cases hne : buffer = []
    · -- nothing is read
      subst hne
      have hcall : s.execute [] = some (s, 0, []) := rfl
      have hunfinished : s.isFinished = false := by
        rw [Bool.eq_false_iff, Ne, isFinished_iff, not_or, Nat.not_le]
        exact h.state
      rw [hcall]
      simp only [hunfinished, Bool.false_eq_true, if_false]
      rw [ih h hrelaxed hmsg fun q hq => by
        rw [hstart q hq, readStart, List.length_nil, if_neg (Nat.not_lt_zero _), Nat.zero_add,
          Nat.sub_zero]]
      exact and_iff_right fun r hr => absurd hr List.not_mem_nil
    have hbuf : buffer <+: msg.drop c := ⟨buffers.flatten, by rw [← hmsg, List.flatten_cons]⟩
    have hfirst : ∀ q, c ≤ q → q < c + buffer.length → start q = c := fun q hc hq => by
      rw [hstart q hc, readStart, if_pos (by omega), Nat.add_zero]
    have hranges := h.ranges_iff hrelaxed hne hbuf hfirst hsize
    have hexecute := h.execute hrelaxed hne hbuf hfirst hsize rfl
    -- the ranges of this call lie in its buffer as long as the marks were carried
    rw [hranges, List.flatten_cons]
    cases hv : ((automaton uri_relaxed).scan s.parser.cs c buffer).verdict with
    | error | ended cs₁ =>
      -- the calls stop behind this one
      have hstop : (match s.execute buffer with
          | none => []
          | some (s', _) => if s'.isFinished then [] else handovers s' buffers) = [] := by
        rcases hexecute with ⟨s', m', hexec, hcs, -, -, -⟩ | ⟨hexec, -⟩
        · have hfinished : s'.isFinished = true := by
            rw [isFinished_iff, hcs, hv]
            first
              | exact .inl rfl
              | exact .inr (Nat.not_lt.mp fun hlt => by
                  have hstate : ((automaton uri_relaxed).scan s.parser.cs c buffer).verdict.state? =
                      some cs₁ := by rw [hv]; rfl
                  have hmore := (verdict_final h.state.1 h.state.2 hstate).2.mp hlt
                  rw [hv] at hmore
                  cases hmore)
          rw [hexec]
          simp only [hfinished, if_true]
        · rw [hexec]
      rw [hstop, Automaton.scan_append_of_ne (by simp [hv])]
      exact and_iff_left fun _ hx => absurd hx List.not_mem_nil
    | more cs₁ =>
      rw [Automaton.scan_append hv]
      simp only [List.foldl_append]
      have hstate : ((automaton uri_relaxed).scan s.parser.cs c buffer).verdict.state? =
          some cs₁ := by rw [hv]; rfl
      obtain ⟨hcs₀, hlt⟩ := verdict_final h.state.1 h.state.2 hstate
      have hpos : ((automaton uri_relaxed).scan s.parser.cs c buffer).pos = c + buffer.length :=
        Automaton.pos_of_more hv
      have hmarked := (h.marked.scan hstate).1
      rw [hpos] at hmarked
      rcases hexecute with ⟨s', m', hexec, hcs, hrelaxed', hmode, hfollows⟩ | ⟨hexec, hthrown⟩
      · rw [hstate] at hcs
        obtain rfl := hmode cs₁ hstate
        obtain rfl : s'.parser.cs = cs₁ := hcs
        have hunfinished : s'.isFinished = false := by
          rw [Bool.eq_false_iff, Ne, isFinished_iff, not_or, Nat.not_le]
          exact ⟨hcs₀, hlt.mpr hv⟩
        rw [hexec]
        simp only [hunfinished, Bool.false_eq_true, if_false]
        -- the calls behind it see the marks that this one has left
        rw [and_iff_right hfollows.carried]
        refine ih (hfollows.between hmarked ⟨hcs₀, hlt.mpr hv⟩) hrelaxed' ?_ fun q hq => ?_
        · rw [← List.drop_drop, ← hmsg, List.flatten_cons, List.drop_left]
        · rw [hstart q (by omega), readStart, if_neg (by omega), ← Nat.sub_sub]
          omega
      · exact iff_of_false (fun hall => hthrown hall.1) (not_carried_scan hmarked hthrown)

/-- The offset of a byte in its buffer is below the length of the buffer. -/
theorem offset_lt {buffers : List (List UInt8)} {n : ℕ}
    (hlen : ∀ buffer ∈ buffers, buffer.length < n) (hq : q < buffers.flatten.length) :
    q - readStart buffers q + 1 < n := by
  induction buffers generalizing q with
  | nil => cases hq
  | cons buffer buffers ih =>
    rw [List.flatten_cons, List.length_append] at hq
    rw [readStart]
    split_ifs with hlt
    · have hfirst := hlen buffer (by simp)
      omega
    · have hrest := ih (fun b hb => hlen b (List.mem_cons_of_mem _ hb))
        (show q - buffer.length < buffers.flatten.length by omega)
      have hle := readStart_le buffers (q - buffer.length)
      omega

/-- **The ranges of all callbacks lie in the buffers** of their calls, on any buffers that a parser
gets until the header is complete, exactly if the query, where there is one, does not end in a later
buffer at a smaller offset than the one at which it starts. A longer buffer fails the first
assertion of `http_parser_execute`, which is about an `int`. -/
theorem ranges_inside_iff (memory : HttpParser) {buffers : List (List UInt8)}
    (hlen : ∀ buffer ∈ buffers, buffer.length < 2 ^ 31) :
    (∀ x ∈ handovers (.new memory) buffers, x.2.Inside x.1) ↔
      (layout memory.uri_relaxed buffers.flatten).Carried (readStart buffers) := by
  refine (between_new memory (readStart buffers)).handovers_iff rfl rfl (fun q hq => ?_)
    fun q _ => by rw [Nat.sub_zero, Nat.zero_add]
  have hoffset := offset_lt hlen hq
  omega

/-- A query that ends behind the offset at which it starts. -/
theorem ranges_inside_iff_long :
    (∀ x ∈ handovers (.new .zero) [bytes "GET /?x", bytes "yyyyyyyy HTTP/1.1\r\n\r\n"],
      x.2.Inside x.1) ↔
    (layout false [bytes "GET /?x", bytes "yyyyyyyy HTTP/1.1\r\n\r\n"].flatten).Carried
      (readStart [bytes "GET /?x", bytes "yyyyyyyy HTTP/1.1\r\n\r\n"]) :=
  ranges_inside_iff .zero (by decide)

/-- A query that starts at the offset 14 of one buffer and ends at the offset 1 of the next. -/
theorem range_outside :
    (bytes "y HTTP/1.1\r\n\r\n", ⟨14, 2 ^ 64 - 13⟩) ∈
        handovers (.new .zero) [bytes "GET /aaaaaaaa?x", bytes "y HTTP/1.1\r\n\r\n"] ∧
      ¬ ∀ x ∈ handovers (.new .zero) [bytes "GET /aaaaaaaa?x", bytes "y HTTP/1.1\r\n\r\n"],
        x.2.Inside x.1 := by
  have hmem : (bytes "y HTTP/1.1\r\n\r\n", ⟨14, 2 ^ 64 - 13⟩) ∈
      handovers (.new .zero) [bytes "GET /aaaaaaaa?x", bytes "y HTTP/1.1\r\n\r\n"] := by
    decide
  exact ⟨hmem, fun h => absurd (h _ hmem) (by decide)⟩

end Http

end Sylar
