import Sylar.Http.Segments

/-!
# Requests in several reads

A request that the parser accepts in one call is accepted read by read, with the same result,
exactly when the reads cut none of its tokens in a way that shows.

## Main definitions

* `Harmless`: what the reads leave of the tokens makes the same request

## Main results

* `segmentation_iff`: the loop of `recvRequest` yields the request of a single call exactly on
  harmless reads
-/

namespace Sylar

open Foundation

namespace Http

variable {msg : List UInt8} {start : ℕ → ℕ} {l : Layout} {sp : Span}

/-- **What the reads leave of the tokens makes the same request**: the method and the version mean
the same, path, query and fragment lie in one read with the byte behind them, and the clipped
fields make the same headers. -/
structure Harmless (msg : List UInt8) (start : ℕ → ℕ) (l : Layout) : Prop where
  method : ∀ s ∈ l.token .method,
    charsToHttpMethod ((s.clip start).text msg) = charsToHttpMethod (s.text msg)
  path : ∀ s ∈ l.token .path, start s.stop ≤ s.start
  query : ∀ s ∈ l.token .query, start s.stop ≤ s.start
  fragment : ∀ s ∈ l.token .fragment, start s.stop ≤ s.start
  version : ∀ s ∈ l.token .version,
    versionOf ((s.clip start).text msg) ((s.clip start).text msg).length =
      versionOf (s.text msg) (s.text msg).length
  headers : l.headers msg start = l.headers msg fun _ => 0

/-! ## Reads -/

theorem readStart_le (reads : List (List UInt8)) (q : ℕ) : readStart reads q ≤ q := by
  induction reads generalizing q with
  | nil => exact Nat.zero_le q
  | cons read reads ih =>
    have hrest := ih (q - read.length)
    rw [readStart]
    split_ifs
    · exact Nat.zero_le q
    · omega

/-- Bytes between the start of a read and a byte of it are in the same read. -/
theorem readStart_eq {reads : List (List UInt8)} {p q : ℕ} (hp : readStart reads q ≤ p)
    (hq : p ≤ q) : readStart reads p = readStart reads q := by
  induction reads generalizing p q with
  | nil => rfl
  | cons read reads ih =>
    rw [readStart] at hp ⊢
    rw [readStart]
    split_ifs at hp ⊢ with hp' hq'
    · rfl
    · omega
    · omega
    · rw [ih (p := p - read.length) (q := q - read.length) (by omega) (by omega)]

/-! ## Tokens -/

theorem clip_zero (s : Span) : s.clip (fun _ => 0) = s := by
  simp [Span.clip]

theorem carry_zero (s : Span) : s.carry (fun _ => 0) = s := by
  simp [Span.carry]

/-- A token is whole exactly if it lies in one read with the byte behind it. -/
theorem text_clip_iff (hsp : sp.start ≤ sp.stop) (hstop : sp.stop ≤ msg.length)
    (hstart : start sp.stop ≤ sp.stop) :
    (sp.clip start).text msg = sp.text msg ↔ start sp.stop ≤ sp.start := by
  constructor
  · intro h
    have hlen := congrArg List.length h
    rw [length_text _ _ hsp hstop,
      length_text _ (sp.clip start) (Nat.max_le.mpr ⟨hsp, hstart⟩) hstop] at hlen
    simp only [Span.clip] at hlen
    omega
  · intro h
    rw [Span.clip, Nat.max_eq_left h]

theorem text_carry_iff (hsp : sp.start ≤ sp.stop) (hstop : sp.stop ≤ msg.length)
    (hstart : ∀ q, start q ≤ q)
    (hsame : ∀ {p q}, start q ≤ p → p ≤ q → start p = start q) :
    sp.Carried start ∧ (sp.carry start).text msg = sp.text msg ↔ start sp.stop ≤ sp.start := by
  have hfrom := hstart sp.start
  have hto := hstart sp.stop
  constructor
  · rintro ⟨hcarried, h⟩
    have hlen := congrArg List.length h
    unfold Span.Carried at hcarried
    have hle : (sp.carry start).start ≤ (sp.carry start).stop := by
      simp only [Span.carry]
      omega
    rw [length_text _ _ hsp hstop, length_text _ _ hle hstop] at hlen
    simp only [Span.carry] at hlen
    omega
  · intro h
    have heq := hsame h hsp
    rw [Span.Carried, Span.carry, heq]
    refine ⟨by omega, ?_⟩
    rw [Nat.add_sub_cancel' h]

theorem getD_map_iff {α β : Type*} {o : Option α} {f g : α → β} {b : β} {P : α → Prop}
    (h : ∀ a ∈ o, f a = g a ↔ P a) : (o.map f).getD b = (o.map g).getD b ↔ ∀ a ∈ o, P a := by
  cases o with
  | none => simp
  | some a => simpa using h a rfl

theorem error_eq_zero : l.error msg start = 0 ↔
    l.version msg start ≠ some none ∧ l.method msg start ≠ some .invalid_method := by
  unfold Layout.error
  split_ifs with hv hm
  · simp [hv]
  · simp [hm]
  · simp [hv, hm]

/-- The methods agree, and none is invalid, exactly if they mean the same. -/
theorem method_iff (hvalid : l.method msg (fun _ => 0) ≠ some .invalid_method) :
    (l.method msg start ≠ some .invalid_method ∧
      (l.request msg start).method = (l.request msg fun _ => 0).method) ↔
      ∀ s ∈ l.token .method,
        charsToHttpMethod ((s.clip start).text msg) = charsToHttpMethod (s.text msg) := by
  simp only [Layout.request, Layout.method] at hvalid ⊢
  generalize l.token .method = o at hvalid ⊢
  cases o with
  | none => simp
  | some s =>
    simp only [Option.map_some, clip_zero, ne_eq, Option.some.injEq] at hvalid ⊢
    simp only [Option.mem_def, Option.some.injEq, forall_eq']
    constructor
    · rintro ⟨hne, h⟩
      simpa [Option.filter, hvalid, hne] using h
    · intro h
      rw [h]
      exact ⟨hvalid, rfl⟩

theorem version_iff (hvalid : l.version msg (fun _ => 0) ≠ some none) :
    (l.version msg start ≠ some none ∧
      (l.request msg start).version = (l.request msg fun _ => 0).version) ↔
      ∀ s ∈ l.token .version,
        versionOf ((s.clip start).text msg) ((s.clip start).text msg).length =
          versionOf (s.text msg) (s.text msg).length := by
  simp only [Layout.request, Layout.version] at hvalid ⊢
  generalize l.token .version = o at hvalid ⊢
  cases o with
  | none => simp
  | some s =>
    simp only [Option.map_some, clip_zero, ne_eq, Option.some.injEq] at hvalid ⊢
    obtain ⟨v, hv⟩ := Option.ne_none_iff_exists'.mp hvalid
    simp only [hv, Option.mem_def, Option.some.injEq, forall_eq', Option.join_some]
    cases versionOf ((s.clip start).text msg) ((s.clip start).text msg).length with
    | none => simp
    | some v' => simp

theorem request_ext (a b : HttpRequest) : a = b ↔ a.method = b.method ∧ a.version = b.version ∧
    a.path = b.path ∧ a.query = b.query ∧ a.fragment = b.fragment ∧ a.headers = b.headers := by
  obtain ⟨⟩ := a
  obtain ⟨⟩ := b
  simp

/-- The tokens that are taken as they stand agree exactly if they are whole. -/
theorem whole_iff {p : ℕ} {m : Mode} (hmarked : l.Marked p m) (hp : p ≤ msg.length)
    (hstart : ∀ q, start q ≤ q) (k : Kind) (d : List UInt8) :
    ((l.token k).map fun s => (s.clip start).text msg).getD d =
        ((l.token k).map fun s => (s.clip fun _ => 0).text msg).getD d ↔
      ∀ s ∈ l.token k, start s.stop ≤ s.start := by
  refine getD_map_iff fun s hs => ?_
  obtain ⟨hle, hstop⟩ := hmarked.tokens k s hs
  rw [clip_zero]
  exact text_clip_iff hle (Nat.le_trans hstop hp) (hstart s.stop)

theorem query_iff {p : ℕ} {m : Mode} (hmarked : l.Marked p m) (hp : p ≤ msg.length)
    (hstart : ∀ q, start q ≤ q) (hsame : ∀ {p q}, start q ≤ p → p ≤ q → start p = start q) :
    (l.Carried start ∧ (l.request msg start).query = (l.request msg fun _ => 0).query) ↔
      ∀ s ∈ l.token .query, start s.stop ≤ s.start := by
  have htokens := hmarked.tokens .query
  simp only [Layout.request, Layout.Carried]
  generalize l.token .query = o at htokens ⊢
  cases o with
  | none => simp
  | some s =>
    obtain ⟨hle, hstop⟩ := htokens s rfl
    simpa [carry_zero] using text_carry_iff hle (Nat.le_trans hstop hp) hstart hsame

/-- **The layout makes the same request of the reads** exactly if they are harmless. -/
theorem harmless_iff {p : ℕ} {m : Mode} (hmarked : l.Marked p m) (hp : p ≤ msg.length)
    (hstart : ∀ q, start q ≤ q) (hsame : ∀ {p q}, start q ≤ p → p ≤ q → start p = start q)
    (herror : l.error msg (fun _ => 0) = 0) :
    (l.Carried start ∧ l.error msg start = 0 ∧
      l.request msg start = l.request msg fun _ => 0) ↔ Harmless msg start l := by
  obtain ⟨hversion, hmethod⟩ := error_eq_zero.mp herror
  have hpath := whole_iff hmarked hp hstart .path (bytes "/")
  have hfragment := whole_iff hmarked hp hstart .fragment []
  rw [error_eq_zero, request_ext]
  constructor
  · rintro ⟨hcarried, ⟨hv, hm⟩, hm', hv', hp', hq', hf', hh'⟩
    exact ⟨(method_iff hmethod).mp ⟨hm, hm'⟩, hpath.mp hp',
      (query_iff hmarked hp hstart hsame).mp ⟨hcarried, hq'⟩, hfragment.mp hf',
      (version_iff hversion).mp ⟨hv, hv'⟩, hh'⟩
  · intro h
    obtain ⟨hm, hm'⟩ := (method_iff hmethod).mpr h.method
    obtain ⟨hv, hv'⟩ := (version_iff hversion).mpr h.version
    obtain ⟨hcarried, hq'⟩ := (query_iff hmarked hp hstart hsame).mpr h.query
    exact ⟨hcarried, ⟨hv, hm⟩, hm', hv', hpath.mpr h.path, hq', hfragment.mpr h.fragment, h.headers⟩

/-! ## Requests -/

theorem between_new (memory : HttpParser) (start : ℕ → ℕ) :
    Between msg start 0 {} (.new memory) where
  state := ⟨Nat.one_ne_zero, (by decide : 1 < 348)⟩
  marked := Layout.marked_empty
  body_start := rfl
  query_start := fun h => nomatch h
  data := rfl
  error := rfl
  carried := fun _ hs => nomatch hs

/-- The state after a call is where the scan ends. -/
theorem cs_of_execute {s s' : HttpRequestParser} {buffer rest : List UInt8} {n : ℕ}
    (hcs : s.parser.cs ≠ 0 ∧ s.parser.cs < 348) (hne : buffer ≠ [])
    (h : s.execute buffer = some (s', n, rest)) : s'.parser.cs =
      (((automaton s.parser.uri_relaxed).scan s.parser.cs 0 buffer).verdict.state?).getD 0 := by
  set s₀ := s.update ({ · with nread := 0, mark := 0, field_len := 0, field_start := 0 }) with hs₀
  have hexec := exec_eq buffer (s := s₀) buffer hcs.2 (Nat.le_refl 0)
    (show s₀.parser.uri_relaxed = s.parser.uri_relaxed from rfl)
  rw [Nat.sub_zero] at hexec
  obtain ⟨⟨s₁, offset⟩, hcall, heq⟩ := Option.map_eq_some_iff.mp h
  obtain ⟨rfl, -⟩ := Prod.mk.inj heq
  unfold httpParserExecute at hcall
  rw [if_neg hne] at hcall
  obtain ⟨⟨s₂, cs, p⟩, hrun, hcall⟩ := Option.bind_eq_some_iff.mp hcall
  rw [← hs₀, show s₀.parser.cs = s.parser.cs from rfl, hexec] at hrun
  obtain ⟨s₃, hplay, hend⟩ := Option.map_eq_some_iff.mp hrun
  simp only [Prod.mk.injEq] at hend
  obtain ⟨rfl, rfl, rfl⟩ := hend
  have hkept : s₃.parser.cs = s.parser.cs := (kept_play hplay).1
  have herror : s₃.parser.hasError = false := decide_eq_false (by rw [hkept]; exact hcs.1)
  simp only [HttpRequestParser.update, herror, Bool.false_eq_true, if_false] at hcall
  split_ifs at hcall
  cases hcall
  rfl

/-! ## Single calls -/

/-- A parser that has finished without error has scanned its message up to a final state. -/
theorem ended_of_execute {memory : HttpParser} {parser : HttpRequestParser} {n : ℕ}
    {rest : List UInt8}
    (hexec : (HttpRequestParser.new memory).execute msg = some (parser, n, rest))
    (herror : parser.hasError = false) (hfinished : parser.isFinished = true) :
    ((automaton memory.uri_relaxed).scan 1 0 msg).verdict = .ended parser.parser.cs := by
  have hne : msg ≠ [] := by
    rintro rfl
    cases hexec
    cases hfinished
  simp only [HttpRequestParser.hasError, HttpParser.hasError, Bool.or_eq_false_iff,
    decide_eq_false_iff_not, not_not] at herror
  have hfinal : 348 ≤ parser.parser.cs := by
    simpa [HttpRequestParser.isFinished, HttpParser.finish, HttpParser.hasError,
      HttpParser.isFinished, herror.2] using hfinished
  have hcs : parser.parser.cs =
      ((automaton memory.uri_relaxed).scan 1 0 msg).verdict.state?.getD 0 :=
    cs_of_execute ⟨Nat.one_ne_zero, (by decide : 1 < 348)⟩ hne hexec
  cases hv : ((automaton memory.uri_relaxed).scan 1 0 msg).verdict with
  | error =>
    rw [hv] at hcs
    exact absurd hcs herror.2
  | ended cs =>
    rw [hv] at hcs
    exact congrArg Verdict.ended hcs.symm
  | more cs =>
    rw [hv] at hcs
    obtain rfl : parser.parser.cs = cs := hcs
    have hstate : ((automaton memory.uri_relaxed).scan 1 0 msg).verdict.state? =
        some parser.parser.cs := by rw [hv]; rfl
    have hlt := (verdict_final Nat.one_ne_zero (by decide) hstate).2.mpr hv
    omega

theorem ne_nil_of_ended {uri_relaxed : Bool} {cs p cs' : ℕ}
    (h : ((automaton uri_relaxed).scan cs p msg).verdict = .ended cs') : msg ≠ [] := by
  rintro rfl
  cases h

/-- The tokens of a message that comes in one piece are there when their callbacks need them. -/
theorem Layout.Marked.carried_zero {p : ℕ} (h : l.Marked p m) : l.Carried fun _ => 0 := by
  intro s hs
  simpa [Span.Carried] using (h.tokens .query s hs).1

/-- **A single call** on a message that the scan ends in makes of it the request of its layout. -/
theorem execute_of_ended {memory : HttpParser} {cs : ℕ} (hsize : msg.length < 2 ^ 64)
    (hended : ((automaton memory.uri_relaxed).scan 1 0 msg).verdict = .ended cs) :
    ∃ parser, (HttpRequestParser.new memory).execute msg =
        some (parser, ((automaton memory.uri_relaxed).scan 1 0 msg).pos,
          msg.drop ((automaton memory.uri_relaxed).scan 1 0 msg).pos) ∧
      parser.parser.cs = cs ∧
      parser.data = (layout memory.uri_relaxed msg).request msg (fun _ => 0) ∧
      parser.error = (layout memory.uri_relaxed msg).error msg fun _ => 0 := by
  have hstate : ((automaton memory.uri_relaxed).scan 1 0 msg).verdict.state? = some cs := by
    rw [hended]
    rfl
  have hcarried := (Layout.marked_empty.scan hstate).1.carried_zero
  obtain ⟨parser, m', hexec, hcs, -, -, hfollows⟩ | ⟨-, hthrown⟩ :=
    (between_new memory fun _ => 0).execute rfl (ne_nil_of_ended hended) (List.prefix_refl msg)
      (fun _ _ _ => rfl) (sized_of_lt hsize _) rfl
  · have hend : parser.parser.cs = cs := hcs.trans (congrArg (Option.getD · 0) hstate)
    exact ⟨parser, hexec, hend, hfollows.data, hfollows.error⟩
  · exact absurd hcarried hthrown

/-- Whether a parser has finished shows in its state. -/
theorem finished_of_ended {uri_relaxed : Bool} {cs : ℕ} {parser : HttpRequestParser}
    (hended : ((automaton uri_relaxed).scan 1 0 msg).verdict = .ended cs)
    (hcs : parser.parser.cs = cs) (herror : parser.error = 0) :
    parser.hasError = false ∧ parser.isFinished = true := by
  have hstate : ((automaton uri_relaxed).scan 1 0 msg).verdict.state? = some cs := by
    rw [hended]
    rfl
  obtain ⟨hne, hlt⟩ := verdict_final Nat.one_ne_zero (by decide) hstate
  have hfinal : 348 ≤ cs := Nat.not_lt.mp fun h => by simp [hlt.mp h] at hended
  simp [HttpRequestParser.hasError, HttpRequestParser.isFinished, HttpParser.finish,
    HttpParser.hasError, HttpParser.isFinished, hcs, hne, herror, hfinal]

/-! ## Behind the message -/

theorem text_append (sp : Span) (rest : List UInt8) (h : sp.stop ≤ msg.length) :
    sp.text (msg ++ rest) = sp.text msg := by
  rcases Nat.le_total sp.start sp.stop with hle | hle
  · rw [Span.text, Span.text, List.drop_append_of_le_length (by omega),
      List.take_append_of_le_length (by rw [List.length_drop]; omega)]
  · simp [Span.text, Nat.sub_eq_zero_of_le hle]

/-- What stands behind its tokens does not change a layout. -/
theorem Layout.Marked.request_append {p : ℕ} (h : l.Marked p m) (hp : p ≤ msg.length)
    (start : ℕ → ℕ) (rest : List UInt8) : l.request (msg ++ rest) start = l.request msg start ∧
      l.error (msg ++ rest) start = l.error msg start := by
  have htoken : ∀ k, ∀ s ∈ l.token k, s.stop ≤ msg.length := fun k s hs =>
    Nat.le_trans (h.tokens k s hs).2 hp
  have hclip : ∀ k, ((l.token k).map fun s => (s.clip start).text (msg ++ rest)) =
      (l.token k).map fun s => (s.clip start).text msg := fun k =>
    Option.map_congr fun s hs => text_append (s.clip start) rest (htoken k s hs)
  have hmethod : l.method (msg ++ rest) start = l.method msg start :=
    Option.map_congr fun s hs => by
      rw [text_append (s.clip start) rest (htoken .method s hs)]
  have hversion : l.version (msg ++ rest) start = l.version msg start :=
    Option.map_congr fun s hs => by
      rw [text_append (s.clip start) rest (htoken .version s hs)]
  have hquery : ((l.token .query).map fun s => (s.carry start).text (msg ++ rest)) =
      (l.token .query).map fun s => (s.carry start).text msg :=
    Option.map_congr fun s hs => text_append (s.carry start) rest (htoken .query s hs)
  have hheaders : l.headers (msg ++ rest) start = l.headers msg start := by
    refine List.foldl_ext _ _ _ fun headers f hf => ?_
    obtain ⟨hname, -, hvalue⟩ := h.fields f hf
    simp only [Field.insert]
    have hkey := text_append ⟨max f.name.start (start f.value.stop), f.name.stop⟩ rest
      (Nat.le_trans hname hp)
    have hval := text_append (f.value.clip start) rest (Nat.le_trans hvalue hp)
    rw [hkey, hval]
  unfold Layout.request Layout.error
  rw [hmethod, hversion, hheaders, hclip, hclip, hquery]
  exact ⟨rfl, rfl⟩

/-- **A call on more than the message** stops behind it, with the same request. -/
theorem execute_append {memory : HttpParser} {parser : HttpRequestParser} {n : ℕ}
    {rest : List UInt8} (hsize : (msg ++ rest).length < 2 ^ 64)
    (hexec : (HttpRequestParser.new memory).execute msg = some (parser, n, []))
    (herror : parser.hasError = false) (hfinished : parser.isFinished = true) :
    ∃ parser', (HttpRequestParser.new memory).execute (msg ++ rest) =
        some (parser', msg.length, rest) ∧
      parser'.data = parser.data ∧ parser'.hasError = false ∧ parser'.isFinished = true := by
  have hended := ended_of_execute hexec herror hfinished
  have hscan : (automaton memory.uri_relaxed).scan 1 0 (msg ++ rest) =
      (automaton memory.uri_relaxed).scan 1 0 msg :=
    Automaton.scan_append_of_ne fun cs hcs => by
      rw [hended] at hcs
      cases hcs
  have hstate : ((automaton memory.uri_relaxed).scan 1 0 msg).verdict.state? =
      some parser.parser.cs := by
    rw [hended]
    rfl
  have hpos := (Automaton.pos_le (A := automaton memory.uri_relaxed) 1 0 msg).2
  rw [Nat.zero_add] at hpos
  -- the call on the message stops at its end
  obtain ⟨parser₀, hexec₀, -, hdata₀, herror₀⟩ := execute_of_ended
    (Nat.lt_of_le_of_lt (by rw [List.length_append]; omega) hsize) hended
  rw [hexec, Option.some.injEq, Prod.mk.injEq, Prod.mk.injEq] at hexec₀
  obtain ⟨rfl, -, hdrop⟩ := hexec₀
  have hlen : ((automaton memory.uri_relaxed).scan 1 0 msg).pos = msg.length :=
    Nat.le_antisymm hpos (List.drop_eq_nil_iff.mp hdrop.symm)
  have hended' : ((automaton memory.uri_relaxed).scan 1 0 (msg ++ rest)).verdict =
      .ended parser.parser.cs := hscan.symm ▸ hended
  obtain ⟨parser', hexec', hcs', hdata', herror'⟩ := execute_of_ended hsize hended'
  obtain ⟨hrequest, herr⟩ := (Layout.marked_empty.scan hstate).1.request_append hpos
    (fun _ => 0) rest
  have hlayout : layout memory.uri_relaxed (msg ++ rest) = layout memory.uri_relaxed msg := by
    rw [layout, layout, hscan]
  rw [hscan, hlen, List.drop_left] at hexec'
  rw [hlayout] at hdata' herror'
  have hnone : parser'.error = 0 := by
    rw [herror',
      show (layout memory.uri_relaxed msg).error (msg ++ rest) (fun _ => 0) = _ from herr]
    exact herror₀.symm.trans (by simpa using (Bool.or_eq_false_iff.mp herror).1)
  exact ⟨parser', hexec', hdata'.trans (hrequest.trans hdata₀.symm),
    finished_of_ended hended hcs' hnone⟩

/-- **Segmentation**: the loop of `recvRequest` makes of the reads of a message the request that a
single call makes of it, without error, exactly if the reads are harmless. -/
theorem segmentation_iff {memory : HttpParser} {buff_size n : ℕ} {msg rest : List UInt8}
    {reads : List (List UInt8)} {parser : HttpRequestParser} (hsize : msg.length < 2 ^ 64)
    (hexec : (HttpRequestParser.new memory).execute msg = some (parser, n, rest))
    (herror : parser.hasError = false) (hfinished : parser.isFinished = true)
    (hreads : reads.flatten = msg) (hread : ∀ read ∈ reads, read ≠ [] ∧ read.length ≤ buff_size)
    (hbuff : buff_size < 2 ^ 31) :
    (recvLoop buff_size (.new memory) [] reads).map (fun r => r.1.data) = some parser.data ↔
      Harmless msg (readStart reads) (layout memory.uri_relaxed msg) := by
  have hended := ended_of_execute hexec herror hfinished
  have hstate : ((automaton memory.uri_relaxed).scan 1 0 msg).verdict.state? =
      some parser.parser.cs := by
    rw [hended]
    rfl
  -- the single call follows the layout without cuts
  obtain ⟨parser', hexec', -, hdata, herror'⟩ := execute_of_ended hsize hended
  obtain rfl : parser' = parser := (Prod.mk.inj (Option.some.inj (hexec'.symm.trans hexec))).1
  have hnone : parser'.error = 0 := by
    simpa using (Bool.or_eq_false_iff.mp herror).1
  have hpos := (Automaton.pos_le (A := automaton memory.uri_relaxed) 1 0 msg).2
  rw [Nat.zero_add] at hpos
  rw [(between_new memory (readStart reads)).recvLoop rfl hreads hread hbuff
    hsize (fun q _ => by rw [Nat.sub_zero, Nat.zero_add]) (by rw [hreads]; rfl) hended, hdata]
  exact harmless_iff (Layout.marked_empty.scan hstate).1 hpos (readStart_le reads) readStart_eq
    (herror'.symm.trans hnone)

/-- A parser in zeroed memory. -/
def HttpParser.zero : HttpParser := ⟨0, 0, 0, 0, 0, 0, 0, 0, false, false, false⟩

/-- A request in two reads, cut behind the blank of the request line. -/
theorem segmentation_iff_blank : ∃ parser n rest,
    (HttpRequestParser.new .zero).execute (bytes "GET / HTTP/1.1\r\n\r\n") =
        some (parser, n, rest) ∧
      ((recvLoop 4096 (.new .zero) [] [bytes "GET ", bytes "/ HTTP/1.1\r\n\r\n"]).map
          (fun r => r.1.data) = some parser.data ↔
        Harmless (bytes "GET / HTTP/1.1\r\n\r\n")
          (readStart [bytes "GET ", bytes "/ HTTP/1.1\r\n\r\n"])
          (layout false (bytes "GET / HTTP/1.1\r\n\r\n"))) := by
  have hsome : ((HttpRequestParser.new .zero).execute (bytes "GET / HTTP/1.1\r\n\r\n")).any
      (fun r => !r.1.hasError && r.1.isFinished) := by decide
  rw [Option.any_eq_true] at hsome
  obtain ⟨⟨parser, n, rest⟩, hexec, hdone⟩ := hsome
  rw [Bool.and_eq_true, Bool.not_eq_true'] at hdone
  exact ⟨parser, n, rest, hexec, segmentation_iff (by decide) hexec hdone.1 hdone.2 (by decide)
    (by decide) (by decide)⟩

/-- A method that is cut in two is no method any more. -/
theorem segmentation_breaks_method :
    (recvLoop 4096 (.new .zero) [] [bytes "GET / HTTP/1.1\r\n\r\n"]).map
        (fun r => r.1.data.method) = some .get ∧
      recvLoop 4096 (.new .zero) [] [bytes "GE", bytes "T / HTTP/1.1\r\n\r\n"] = none := by
  constructor
  · decide
  · rw [← Option.isNone_iff_eq_none]
    decide

end Http

end Sylar
