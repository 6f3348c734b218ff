import Mathlib.Data.List.Find
import Sylar.Http.Layout

/-!
# A message in several reads

`http_parser_execute` sets its marks back to the front of the buffer on every call, and the mark of
a query not at all. A parser that is fed a message read by read so sees of each token what is left
of it in the read in which it ends: the layout of the message, clipped at the reads, says what
request it makes.

## Main definitions

* `Registers`, `Follows`: the parser between two bytes, in terms of the layout

## Main results

* `exec_eq`: the machine of the code is the scan of the automaton
* `Follows.act`: the actions follow the layout
* `Follows.execute`: so does a call of the parser
* `recvLoop_eq`: what the loop of `recvRequest` makes of the reads
-/

namespace Sylar

open Foundation

namespace Http

variable {msg buffer : List UInt8} {start : ℕ → ℕ} {c q x y : ℕ} {m m' : Mode} {l : Layout}
  {s s' : HttpRequestParser} {sp : Span}

/-! ## Texts -/

theorem strncmp_take (s t : List UInt8) (n : ℕ) : strncmp (s.take n) t n = strncmp s t n := by
  induction n generalizing s t with
  | zero => rfl
  | succ n ih =>
    cases s with
    | nil => rfl
    | cons a s =>
      simp only [strncmp, List.take_succ_cons, List.headD_cons, List.tail_cons, ih]
      rfl

theorem versionOf_take (text : List UInt8) (n : ℕ) :
    versionOf (text.take n) n = versionOf text n := by
  simp only [versionOf, strncmp_take]

/-- A name ends before a blank. -/
theorem strncmp_blank {name : List UInt8} (h : ∀ a ∈ name, a ≠ 0 ∧ a ≠ 32)
    (text rest : List UInt8) :
    strncmp name (text ++ 32 :: rest) name.length = strncmp name text name.length := by
  induction name generalizing text with
  | nil => rfl
  | cons a name ih =>
    obtain ⟨hzero, hblank⟩ := h a (by simp)
    cases text with
    | nil => simp [strncmp, hzero, hblank]
    | cons b text =>
      have hrest := ih (fun d hd => h d (List.mem_cons_of_mem _ hd)) text
      simp only [strncmp, List.length_cons, List.headD_cons, List.tail_cons, List.cons_append,
        hrest]
      rfl

theorem httpMethodMap_names :
    ∀ x ∈ httpMethodMap, ∀ a ∈ bytes x.2, a ≠ 0 ∧ a ≠ 32 := by
  have hnames : (httpMethodMap.all fun x => (bytes x.2).all fun a => a != 0 && a != 32) = true := by
    decide
  simpa [List.all_eq_true] using hnames

theorem charsToHttpMethod_blank (text rest : List UInt8) :
    charsToHttpMethod (text ++ 32 :: rest) = charsToHttpMethod text := by
  unfold charsToHttpMethod
  rw [List.find?_congr fun x hx => strncmp_blank (httpMethodMap_names x hx) text rest]

/-- A range of the buffer is a range of the message. -/
theorem text_buffer (hbuf : buffer <+: msg.drop c) (hx : c ≤ x) (hy : y ≤ c + buffer.length) :
    (buffer.drop (x - c)).take (y - x) = (⟨x, y⟩ : Span).text msg := by
  obtain ⟨post, hpost⟩ := hbuf
  have hdrop : msg.drop x = (buffer ++ post).drop (x - c) := by
    rw [hpost, List.drop_drop, Nat.add_sub_cancel' hx]
  rcases Nat.le_total y x with hle | hle
  · simp [Span.text, Nat.sub_eq_zero_of_le hle]
  · rw [Span.text, hdrop, List.drop_append_of_le_length (by omega),
      List.take_append_of_le_length (by rw [List.length_drop]; simp only; omega)]

theorem str_buffer (hbuf : buffer <+: msg.drop c) (hx : c ≤ x) (hy : y ≤ c + buffer.length) :
    str (buffer.drop (x - c)) (y - x) = some ((⟨x, y⟩ : Span).text msg) := by
  rw [str, if_pos (by rw [List.length_drop]; omega), text_buffer hbuf hx hy]

theorem length_text (msg : List UInt8) (sp : Span) (hstart : sp.start ≤ sp.stop)
    (hstop : sp.stop ≤ msg.length) :
    (sp.text msg).length = sp.stop - sp.start := by
  rw [Span.text, List.length_take, List.length_drop]
  omega

/-! ## The machine and the automaton -/

theorem foldl_pair {σ τ ε : Type*} (f : σ → ε → σ) (g : τ → ε → τ) (events : List ε) (a : σ)
    (b : τ) : events.foldl (fun t e => (f t.1 e, g t.2 e)) (a, b) =
      (events.foldl f a, events.foldl g b) := by
  induction events generalizing a b with
  | nil => rfl
  | cons e events ih => exact ih ..

/-- The code's part of an event, in a buffer whose first byte is the byte `c` of the message. -/
def play (buffer : List UInt8) (c : ℕ) (o : Option HttpRequestParser)
    (e : Event UInt8 Action) : Option HttpRequestParser :=
  o.bind fun s => act buffer (e.pos - c) s e.action

theorem foldl_play_none (events : List (Event UInt8 Action)) :
    events.foldl (play buffer c) none = none := by
  induction events with
  | nil => rfl
  | cons e events ih => exact ih

theorem foldl_play_events (buffer : List UInt8) (b : UInt8) (acts : List Action) :
    (Automaton.events q b acts).foldl (play buffer c) (some s) =
      acts.foldlM (act buffer (q - c)) s := by
  induction acts generalizing s with
  | nil => rfl
  | cons a acts ih =>
    rw [Automaton.events, List.map_cons, List.foldl_cons, List.foldlM_cons]
    cases h : act buffer (q - c) s a with
    | none =>
      rw [show play buffer c (some s) ⟨q, b, a⟩ = none from h]
      exact foldl_play_none _
    | some s' =>
      rw [show play buffer c (some s) ⟨q, b, a⟩ = some s' from h]
      exact ih

/-- What no action changes. -/
def Kept (x y : HttpParser) : Prop :=
  y.cs = x.cs ∧ y.nread = x.nread ∧ y.uri_relaxed = x.uri_relaxed

theorem kept_act {p : ℕ} {a : Action} (h : act buffer p s a = some s') :
    Kept s.parser s'.parser := by
  have hset : ∀ {o : Option (List UInt8)} {f : List UInt8 → HttpRequest},
      (o.map fun v => { s with data := f v }) = some s' → Kept s.parser s'.parser := by
    intro o f ho
    obtain ⟨v, -, rfl⟩ := Option.map_eq_some_iff.mp ho
    exact ⟨rfl, rfl, rfl⟩
  cases a with
  | write_value =>
    simp only [act, onRequestHttpField] at h
    split_ifs at h
    · cases h
      exact ⟨rfl, rfl, rfl⟩
    · obtain ⟨key, -, hval⟩ := Option.bind_eq_some_iff.mp h
      exact hset hval
  | request_method =>
    cases h
    simp only [onReqeustMethod]
    split_ifs <;> exact ⟨rfl, rfl, rfl⟩
  | http_version =>
    cases h
    simp only [onRequestHttpVersion]
    split <;> exact ⟨rfl, rfl, rfl⟩
  | fragment | query_string | request_path => exact hset h
  | done =>
    cases h
    simp only [HttpRequestParser.update]
    split_ifs <;> exact ⟨rfl, rfl, rfl⟩
  | _ =>
    cases h
    exact ⟨rfl, rfl, rfl⟩

theorem Kept.trans {x y z : HttpParser} (h : Kept x y) (h' : Kept y z) : Kept x z :=
  ⟨h'.1.trans h.1, h'.2.1.trans h.2.1, h'.2.2.trans h.2.2⟩

theorem kept_play {events : List (Event UInt8 Action)}
    (h : events.foldl (play buffer c) (some s) = some s') : Kept s.parser s'.parser := by
  induction events generalizing s with
  | nil =>
    cases h
    exact ⟨rfl, rfl, rfl⟩
  | cons e events ih =>
    rw [List.foldl_cons] at h
    cases hplay : play buffer c (some s) e with
    | none =>
      rw [hplay, foldl_play_none] at h
      cases h
    | some t =>
      rw [hplay] at h
      exact (kept_act hplay).trans (ih h)

/-- **The machine of the code is the scan of the automaton**, with the actions played in the
buffer. -/
theorem exec_eq (buffer : List UInt8) {cs p : ℕ} (bs : List UInt8) {uri_relaxed : Bool}
    (hcs : cs < 348) (hp : c ≤ p) (hrelaxed : s.parser.uri_relaxed = uri_relaxed) :
    exec buffer s cs (p - c) bs =
      (((automaton uri_relaxed).scan cs p bs).events.foldl (play buffer c) (some s)).map fun s' =>
        (s', (((automaton uri_relaxed).scan cs p bs).verdict.state?).getD 0,
          ((automaton uri_relaxed).scan cs p bs).pos - c) := by
  induction bs generalizing s cs p with
  | nil => rfl
  | cons b bs ih =>
    have hauto : (automaton uri_relaxed).next cs b = next uri_relaxed cs b := if_pos hcs
    rw [exec, hrelaxed]
    cases hnext : next uri_relaxed cs b with
    | none =>
      rw [Automaton.scan_error (hauto.trans hnext)]
      rfl
    | some r =>
      obtain ⟨cs', acts⟩ := r
      -- the actions that end the scan are those with `done`
      have hany : acts.any (automaton uri_relaxed).ends = decide (.done ∈ acts) := by
        rw [Bool.eq_iff_iff]
        simp [automaton]
      have hplay := foldl_play_events buffer (c := c) (q := p) (s := s) b acts
      simp only
      by_cases hdone : .done ∈ acts
      · rw [Automaton.scan_ended (hauto.trans hnext) (by rw [hany]; exact decide_eq_true hdone),
          hplay]
        simp only [if_pos hdone]
        rw [show p - c + 1 = p + 1 - c by omega]
        cases acts.foldlM (act buffer (p - c)) s <;> rfl
      · rw [Automaton.scan_more (hauto.trans hnext) (by rw [hany]; exact decide_eq_false hdone)]
        simp only [List.foldl_append, hplay, if_neg hdone]
        cases hacts : acts.foldlM (act buffer (p - c)) s with
        | none =>
          rw [foldl_play_none]
          rfl
        | some s' =>
          -- only `done` leads to a final state
          have hcs' : cs' < 348 :=
            Nat.lt_of_not_le fun hle => hdone ((next_respects hcs hnext).2.2.mp hle)
          rw [Option.bind_some, show p - c + 1 = p + 1 - c by omega]
          exact ih hcs' (by omega) ((kept_play (hplay.trans hacts)).2.2.trans hrelaxed)

/-! ## The registers -/

/-- The registers of the parser, in a buffer whose first byte is the byte `c` of the message. -/
structure Registers (start : ℕ → ℕ) (c len : ℕ) (m : Mode) (l : Layout) (x : HttpParser) :
    Prop where
  mark : x.mark = l.mark - c
  field_start : x.field_start = l.field_start - c
  field_len : m.named → x.field_len = l.field_end - max l.field_start c
  query_start : m.querying → x.query_start = l.query_start - start l.query_start
  body_start : m.final = false → x.body_start = 0
  mark_lt : x.mark < len
  field_start_lt : x.field_start < len
  field_len_le : x.field_len ≤ len
  body_start_le : x.body_start ≤ len

/-- The parser follows the layout: its request is the one that the layout makes. -/
structure Follows (msg : List UInt8) (start : ℕ → ℕ) (c len : ℕ) (m : Mode) (l : Layout)
    (s : HttpRequestParser) : Prop extends Registers start c len m l s.parser where
  data : s.data = l.request msg start
  error : s.error = l.error msg start
  carried : l.Carried start

/-- What becomes of the parser: it follows the layout, or has thrown at the query. -/
def Tracks (msg : List UInt8) (start : ℕ → ℕ) (c len : ℕ) (m : Mode) (l : Layout) :
    Option HttpRequestParser → Prop
  | some s => Follows msg start c len m l s
  | none => ¬ l.Carried start

/-- The offsets of a message in its reads are sizes. -/
def Sized (msg : List UInt8) (start : ℕ → ℕ) : Prop :=
  ∀ q, q < msg.length → q - start q + 1 < 2 ^ 64

theorem sized_of_lt (h : msg.length < 2 ^ 64) (start : ℕ → ℕ) : Sized msg start := by
  intro q hq
  omega

/-- A buffer of a sized message is sized. -/
theorem length_of_sized (h : Sized msg start) (hbuf : buffer <+: msg.drop c) (hne : buffer ≠ [])
    (hstart : ∀ q, c ≤ q → q < c + buffer.length → start q = c) : buffer.length < 2 ^ 64 := by
  have hpos : 0 < buffer.length := List.length_pos_iff.mpr hne
  have hle := hbuf.length_le
  rw [List.length_drop] at hle
  have hlast := h (c + buffer.length - 1) (by omega)
  rw [hstart (c + buffer.length - 1) (by omega) (by omega)] at hlast
  omega

/-! ## The actions -/

theorem request_add_query : (l.add .query sp).request msg start =
    { l.request msg start with query := (sp.carry start).text msg } := rfl

theorem request_add_method
    (h : charsToHttpMethod ((sp.clip start).text msg) ≠ .invalid_method) :
    (l.add .method sp).request msg start = { l.request msg start with
      method := charsToHttpMethod ((sp.clip start).text msg) } := by
  simp [Layout.request, Layout.method, Layout.version, Layout.headers, Layout.add, Option.filter, h]

theorem request_add_invalid (hnone : l.token .method = none)
    (h : charsToHttpMethod ((sp.clip start).text msg) = .invalid_method) :
    l.request msg start = (l.add .method sp).request msg start := by
  simp [Layout.request, Layout.method, Layout.version, Layout.headers, Layout.add, Option.filter, h,
    hnone]

theorem error_none (hmethod : l.token .method = none) (hversion : l.token .version = none) :
    l.error msg start = 0 := by
  simp [Layout.error, Layout.method, Layout.version, hmethod, hversion]

theorem error_add_method (hversion : l.token .version = none) :
    (l.add .method sp).error msg start =
      if charsToHttpMethod ((sp.clip start).text msg) = .invalid_method then 1000 else 0 := by
  simp [Layout.error, Layout.method, Layout.version, Layout.add, hversion]

theorem request_add_version {v : UInt8} (h : versionOf ((sp.clip start).text msg)
    ((sp.clip start).text msg).length = some v) :
    (l.add .version sp).request msg start = { l.request msg start with version := v } := by
  simp [Layout.request, Layout.method, Layout.version, Layout.headers, Layout.add, h]

theorem error_add_version (hnone : l.token .version = none) {v : UInt8}
    (h : versionOf ((sp.clip start).text msg) ((sp.clip start).text msg).length = some v) :
    (l.add .version sp).error msg start = l.error msg start := by
  simp [Layout.error, Layout.method, Layout.version, Layout.add, h, hnone]

theorem request_add_unknown (hnone : l.token .version = none)
    (h : versionOf ((sp.clip start).text msg) ((sp.clip start).text msg).length = none) :
    (l.add .version sp).request msg start = l.request msg start := by
  simp [Layout.request, Layout.method, Layout.version, Layout.headers, Layout.add, h, hnone]

theorem error_add_unknown
    (h : versionOf ((sp.clip start).text msg) ((sp.clip start).text msg).length = none) :
    (l.add .version sp).error msg start = 1001 := by
  simp [Layout.error, Layout.version, Layout.add, h]

theorem carried_add {k : Kind} (hk : k ≠ .query) (h : l.Carried start) :
    (l.add k sp).Carried start := by
  intro s hs
  rw [Layout.token_add_of_ne hk.symm] at hs
  exact h s hs

/-- A callback leaves the registers as they are. -/
theorem Registers.pass {len : ℕ} {k : Kind} {x : HttpParser} (h : Registers start c len m l x)
    (hpass : m.pass k = some m') : Registers start c len m' (l.add k sp) x := by
  obtain ⟨-, rfl⟩ := Layout.pass_eq hpass
  exact { h with }

/-- The range from the mark to the byte `q`. -/
theorem clip_buffer (hbuf : buffer <+: msg.drop c) (hc : c ≤ q) (hq : q ≤ c + buffer.length)
    (hmark : x ≤ q) (hstart : start q = c) :
    str (buffer.drop (x - c)) (len (x - c) (q - c)) =
      some (((⟨x, q⟩ : Span).clip start).text msg) := by
  have hlen : len (x - c) (q - c) = q - max x c := by
    rw [len, if_pos (by omega)]
    omega
  rw [hlen, show x - c = max x c - c by omega, str_buffer hbuf (by omega) hq]
  simp only [Span.clip, hstart]

/-- The bytes from `x` on, cut at a byte `p` behind it. -/
theorem drop_cut {p : ℕ} {b : UInt8} (hx : x ≤ p) (hb : buffer[p]? = some b) :
    buffer.drop x = (buffer.drop x).take (p - x) ++ b :: buffer.drop (p + 1) := by
  obtain ⟨hlt, rfl⟩ := List.getElem?_eq_some_iff.mp hb
  conv_lhs => rw [← List.take_append_drop (p - x) (buffer.drop x)]
  rw [List.drop_drop, Nat.add_sub_cancel' hx, List.drop_eq_getElem_cons hlt]

/-- The token from the mark to the byte `q`, as its callback sees it. -/
theorem take_buffer (hbuf : buffer <+: msg.drop c) (hc : c ≤ q) (hq : q ≤ c + buffer.length)
    (hmark : x ≤ q) (hstart : start q = c) :
    (buffer.drop (x - c)).take (len (x - c) (q - c)) = ((⟨x, q⟩ : Span).clip start).text msg := by
  have hstr := clip_buffer hbuf hc hq hmark hstart
  unfold str at hstr
  split_ifs at hstr
  exact Option.some.inj hstr

/-- The method is what stands before the blank. -/
theorem method_buffer (hbuf : buffer <+: msg.drop c) (hc : c ≤ q) (hb : buffer[q - c]? = some 32)
    (hmark : x ≤ q) (hstart : start q = c) : charsToHttpMethod (buffer.drop (x - c)) =
      charsToHttpMethod (((⟨x, q⟩ : Span).clip start).text msg) := by
  obtain ⟨hlt, -⟩ := List.getElem?_eq_some_iff.mp hb
  have hlen : len (x - c) (q - c) = q - c - (x - c) := if_pos (by omega)
  rw [drop_cut (Nat.sub_le_sub_right hmark c) hb, charsToHttpMethod_blank, ← hlen,
    take_buffer hbuf hc (by omega) hmark hstart]

theorem Follows.act_field {b : UInt8} (h : Follows msg start c buffer.length m l s)
    (hmarked : l.Marked q m) (henter : m.enter b .write_field = some m')
    (hlt : q - c < buffer.length) :
    Tracks msg start c buffer.length m' (l.note ⟨q, b, .write_field⟩)
      (act buffer (q - c) s .write_field) := by
  obtain rfl := Option.some.inj henter
  have hlen : len s.parser.field_start (q - c) = q - max l.field_start c := by
    have := hmarked.field_start
    rw [h.field_start, len, if_pos (by omega)]
    omega
  refine { h with field_len := fun _ => hlen, field_len_le := ?_ }
  show len s.parser.field_start (q - c) ≤ buffer.length
  omega

/-- A header: it is set as the layout says, unless its name is empty in this buffer. -/
theorem Follows.act_value {b : UInt8} (h : Follows msg start c buffer.length m l s)
    (hmarked : l.Marked q m) (henter : m.enter b .write_value = some m')
    (hbuf : buffer <+: msg.drop c) (hc : c ≤ q) (hlt : q - c < buffer.length)
    (hle : c + buffer.length ≤ msg.length) (hstart : start q = c) :
    Tracks msg start c buffer.length m' (l.note ⟨q, b, .write_value⟩)
      (act buffer (q - c) s .write_value) := by
  simp only [Mode.enter] at henter
  split_ifs at henter with hnamed
  obtain rfl := Option.some.inj henter
  have hend := hmarked.field_end
  have hfields : ∀ headers, (l.note ⟨q, b, .write_value⟩).headers msg start = headers ↔
      Field.insert msg start (l.headers msg start)
        ⟨⟨l.field_start, l.field_end⟩, ⟨l.mark, q⟩⟩ = headers := by
    intro headers
    rw [Layout.headers, Layout.note, List.foldl_append]
    rfl
  have hvalue := clip_buffer hbuf hc (by omega) hmarked.mark hstart
  simp only [Http.act, onRequestHttpField, h.field_len hnamed, h.field_start, h.mark]
  split_ifs with hflen
  -- the part of the name in this buffer is empty: nothing is set
  · have hkey : (l.note ⟨q, b, .write_value⟩).headers msg start = l.headers msg start := by
      rw [hfields, Field.insert, if_pos]
      simp [Span.text, hstart, hflen]
    refine { h with data := ?_ }
    rw [h.data, Layout.request, Layout.request, hkey]
    rfl
  · have hname := str_buffer (x := max l.field_start c) (y := l.field_end) hbuf
      (Nat.le_max_right ..) (by omega)
    rw [show max l.field_start c - c = l.field_start - c by omega] at hname
    have hkey : (⟨max l.field_start c, l.field_end⟩ : Span).text msg ≠ [] := by
      rw [← List.length_pos_iff, length_text _ _ (by simp only; omega) (by simp only; omega)]
      simp only
      omega
    rw [hname, hvalue, Option.bind_some, Option.map_some]
    refine { h with data := ?_ }
    have hinsert : (l.note ⟨q, b, .write_value⟩).headers msg start =
        setHeader ((⟨max l.field_start c, l.field_end⟩ : Span).text msg)
          (((⟨l.mark, q⟩ : Span).clip start).text msg) (l.headers msg start) := by
      rw [hfields, Field.insert]
      simp only [hstart]
      rw [if_neg hkey]
    rw [h.data]
    simp only [Layout.request, hinsert]
    rfl

theorem Follows.act_method {b : UInt8} (h : Follows msg start c buffer.length m l s)
    (hmarked : l.Marked q m) (henter : m.enter b .request_method = some m')
    (hbuf : buffer <+: msg.drop c) (hc : c ≤ q) (hb : buffer[q - c]? = some b)
    (hstart : start q = c) :
    Tracks msg start c buffer.length m' (l.note ⟨q, b, .request_method⟩)
      (act buffer (q - c) s .request_method) := by
  simp only [Mode.enter] at henter
  split_ifs at henter with hblank
  rw [hblank] at hb
  have hmethod := method_buffer hbuf hc hb hmarked.mark hstart
  have hnone : l.token .method = none := hmarked.fresh henter (Nat.le_refl _)
  have hversion : l.token .version = none := hmarked.fresh henter (by decide)
  simp only [Http.act, onReqeustMethod, h.mark, hmethod]
  split_ifs with hinvalid
  · exact { h.pass henter with
      data := h.data.trans (request_add_invalid hnone hinvalid)
      error := ((error_add_method hversion).trans (if_pos hinvalid)).symm
      carried := carried_add (by decide) h.carried }
  · exact { h.pass henter with
      data := by rw [h.data]; exact (request_add_method hinvalid).symm
      error := by
        have herror : s.error = 0 := h.error.trans (error_none hnone hversion)
        exact herror.trans ((error_add_method hversion).trans (if_neg hinvalid)).symm
      carried := carried_add (by decide) h.carried }

/-- The query is read from the offset that its first byte had in its buffer, which may lie behind
its end here. -/
theorem Follows.act_query {b : UInt8} (h : Follows msg start c buffer.length m l s)
    (hmarked : l.Marked q m) (henter : m.enter b .query_string = some m')
    (hbuf : buffer <+: msg.drop c) (hc : c ≤ q) (hlt : q - c < buffer.length)
    (hle : c + buffer.length ≤ msg.length) (hstart : start q = c) (hsize : Sized msg start)
    (hlen : buffer.length < 2 ^ 64) :
    Tracks msg start c buffer.length m' (l.note ⟨q, b, .query_string⟩)
      (act buffer (q - c) s .query_string) := by
  simp only [Mode.enter] at henter
  split_ifs at henter with hquerying
  have hquery := h.query_start hquerying
  have hstop := hmarked.query_start
  simp only [Http.act, onRequestQueryString, hquery]
  -- the offset is one of an earlier buffer: the length is right only if it is small enough
  by_cases hcarried : l.query_start - start l.query_start ≤ q - c
  · have hlen : len (l.query_start - start l.query_start) (q - c) =
        q - (c + (l.query_start - start l.query_start)) := by
      rw [len, if_pos hcarried]
      omega
    have hstr := str_buffer (x := c + (l.query_start - start l.query_start)) (y := q) hbuf
      (Nat.le_add_right ..) (by omega)
    rw [Nat.add_sub_cancel_left] at hstr
    rw [hlen, hstr, Option.map_some]
    refine { h.pass henter with data := ?_, error := h.error, carried := fun sp hsp => ?_ }
    · rw [h.data]
      show _ = ((l.add .query ⟨l.query_start, q⟩).request msg start)
      rw [request_add_query, Span.carry, hstart]
    · obtain rfl := Option.some.inj ((Layout.token_add_self (k := .query)).symm.trans hsp)
      simpa only [Span.Carried, hstart] using hcarried
  · have hstr : str (buffer.drop (l.query_start - start l.query_start))
        (len (l.query_start - start l.query_start) (q - c)) = none := by
      have hoffset := hsize l.query_start (by omega)
      rw [str, if_neg]
      rw [len, if_neg hcarried, List.length_drop]
      omega
    rw [hstr, Option.map_none]
    intro hall
    have hsp := hall ⟨l.query_start, q⟩ Layout.token_add_self
    simp only [Span.Carried, hstart] at hsp
    exact hcarried hsp

theorem Follows.act_version {b : UInt8} (h : Follows msg start c buffer.length m l s)
    (hmarked : l.Marked q m) (henter : m.enter b .http_version = some m')
    (hbuf : buffer <+: msg.drop c) (hc : c ≤ q) (hlt : q - c < buffer.length)
    (hle : c + buffer.length ≤ msg.length) (hstart : start q = c) :
    Tracks msg start c buffer.length m' (l.note ⟨q, b, .http_version⟩)
      (act buffer (q - c) s .http_version) := by
  have hversion : l.token .version = none := hmarked.fresh henter (Nat.le_refl _)
  have htext := take_buffer (x := l.mark) hbuf hc (by omega) hmarked.mark hstart
  have hof : versionOf (buffer.drop (l.mark - c)) (len (l.mark - c) (q - c)) =
      versionOf (((⟨l.mark, q⟩ : Span).clip start).text msg)
        (((⟨l.mark, q⟩ : Span).clip start).text msg).length := by
    have hlength := length_text msg ((⟨l.mark, q⟩ : Span).clip start)
    simp only [Span.clip, hstart] at hlength htext ⊢
    have hmark := hmarked.mark
    have hlen : len (l.mark - c) (q - c) = q - max l.mark c := by
      rw [len, if_pos (by omega)]
      omega
    rw [hlength (by omega) (by omega), ← htext, hlen, versionOf_take]
  simp only [Http.act, onRequestHttpVersion, h.mark, hof]
  split
  · rename_i v hv
    exact { h.pass henter with
      data := by rw [h.data]; exact (request_add_version hv).symm
      error := h.error.trans (error_add_version hversion hv).symm
      carried := carried_add (by decide) h.carried }
  · rename_i hv
    exact { h.pass henter with
      data := h.data.trans (request_add_unknown hversion hv).symm
      error := (error_add_unknown hv).symm
      carried := carried_add (by decide) h.carried }

/-- **An action of the parser follows the layout**, or the query throws. -/
theorem Follows.act {b : UInt8} {a : Action} (h : Follows msg start c buffer.length m l s)
    (hmarked : l.Marked q m) (henter : m.enter b a = some m') (hbuf : buffer <+: msg.drop c)
    (hc : c ≤ q) (hb : buffer[q - c]? = some b) (hstart : start q = c)
    (hsize : Sized msg start) (hlen : buffer.length < 2 ^ 64) :
    Tracks msg start c buffer.length m' (l.note ⟨q, b, a⟩) (act buffer (q - c) s a) := by
  obtain ⟨hlt, -⟩ := List.getElem?_eq_some_iff.mp hb
  have hle : c + buffer.length ≤ msg.length := by
    have := hbuf.length_le
    rw [List.length_drop] at this
    omega
  have hclip := fun {x : ℕ} (hx : x ≤ q) =>
    clip_buffer (x := x) hbuf hc (by omega) hx hstart
  cases a with
  | mark | start_value =>
    obtain rfl := Option.some.inj henter
    exact { h with mark := rfl, mark_lt := hlt }
  | start_field =>
    obtain rfl := Option.some.inj henter
    exact { h with field_start := rfl, field_start_lt := hlt, field_len := fun hn => by cases hn }
  | write_field => exact h.act_field hmarked henter hlt
  | write_value => exact h.act_value hmarked henter hbuf hc hlt hle hstart
  | request_method => exact h.act_method hmarked henter hbuf hc hb hstart
  | request_uri =>
    obtain rfl := Option.some.inj henter
    exact { h with }
  | fragment =>
    have hstr := hclip hmarked.mark
    simp only [Http.act, onRequestFragment, h.mark, hstr, Option.map_some]
    exact { h.pass henter with
      data := by rw [h.data]; rfl
      error := h.error
      carried := carried_add (by decide) h.carried }
  -- the one offset that is kept from call to call
  | start_query =>
    obtain rfl := Option.some.inj henter
    refine { h with query_start := fun _ => ?_ }
    show q - c = q - start q
    rw [hstart]
  | query_string => exact h.act_query hmarked henter hbuf hc hlt hle hstart hsize hlen
  | http_version => exact h.act_version hmarked henter hbuf hc hlt hle hstart
  | request_path =>
    have hstr := hclip hmarked.mark
    simp only [Http.act, onRequestPath, h.mark, hstr, Option.map_some]
    exact { h.pass henter with
      data := by rw [h.data]; rfl
      error := h.error
      carried := carried_add (by decide) h.carried }
  -- the end of the header, in this buffer
  | done =>
    obtain rfl := Option.some.inj henter
    have hmark := h.mark_lt
    simp only [Http.act, HttpRequestParser.update]
    split_ifs
    · exact { h with body_start := (fun hf => by cases hf), body_start_le := hmark.le }
    · exact { h with body_start := (fun hf => by cases hf), body_start_le := hlt }
  | xml | json =>
    obtain rfl := Option.some.inj henter
    exact { h with }

theorem Follows.allows {len : ℕ} (h : Follows msg start c len m l s) (hallows : m.allows m') :
    Follows msg start c len m' l s :=
  { h with
    field_len := fun hn => h.field_len (hallows.2.2.1 hn)
    query_start := fun hq => h.query_start (hallows.2.1 hq)
    body_start := fun hf => h.body_start (Bool.eq_false_iff.mpr fun ht => by
      rw [hallows.2.2.2 ht] at hf
      cases hf) }

/-- **The actions of a scan follow the layout.** -/
theorem Follows.scan {cs : ℕ} (uri_relaxed : Bool)
    (h : Follows msg start c buffer.length (mode cs) l s) (hmarked : l.Marked c (mode cs))
    (hbuf : buffer <+: msg.drop c) (hstart : ∀ q, c ≤ q → q < c + buffer.length → start q = c)
    (hsize : Sized msg start) (hlen : buffer.length < 2 ^ 64) :
    ∃ m', (∀ cs', ((automaton uri_relaxed).scan cs c buffer).verdict.state? = some cs' →
        m' = mode cs') ∧
      Tracks msg start c buffer.length m'
        (((automaton uri_relaxed).scan cs c buffer).events.foldl Layout.note l)
        (((automaton uri_relaxed).scan cs c buffer).events.foldl (play buffer c) (some s)) := by
  -- the layout and the parser, side by side
  have hinv := (modes uri_relaxed).invariant_stop buffer (p := c) (s := cs)
    (R := fun q m (t : Layout × Option HttpRequestParser) =>
      t.1.Marked q m ∧ Tracks msg start c buffer.length m t.1 t.2)
    (f := fun t e => (t.1.note e, play buffer c t.2 e))
    (fun q b m m' a t hc hb henter ht => ?_) (fun q m m' t _ _ hallows ht => ?_)
    (t := (l, some s)) ⟨hmarked, h⟩
  · obtain ⟨m', hm', hpair⟩ := hinv
    rw [foldl_pair] at hpair
    exact ⟨m', hm', hpair.2⟩
  · obtain ⟨l, o⟩ := t
    obtain ⟨hnote, hkept⟩ := ht.1.note henter
    refine ⟨hnote, ?_⟩
    cases o with
    | none => exact fun hall => ht.2 fun sp hsp => hall sp (hkept .query sp hsp)
    | some s =>
      have hlt := (List.getElem?_eq_some_iff.mp hb).1
      exact ht.2.act ht.1 henter hbuf hc hb (hstart q hc (by omega)) hsize hlen
  · obtain ⟨l, o⟩ := t
    refine ⟨ht.1.allows hallows, ?_⟩
    cases o with
    | none => exact ht.2
    | some s => exact ht.2.allows hallows

/-! ## Calls of the parser -/

/-- The parser between two reads, before the byte `c` of the message. -/
structure Between (msg : List UInt8) (start : ℕ → ℕ) (c : ℕ) (l : Layout)
    (s : HttpRequestParser) : Prop where
  state : s.parser.cs ≠ 0 ∧ s.parser.cs < 348
  marked : l.Marked c (mode s.parser.cs)
  body_start : s.parser.body_start = 0
  query_start : (mode s.parser.cs).querying →
    s.parser.query_start = l.query_start - start l.query_start
  data : s.data = l.request msg start
  error : s.error = l.error msg start
  carried : l.Carried start

/-- The parser at the start of a call. -/
def HttpRequestParser.reset (s : HttpRequestParser) : HttpRequestParser :=
  s.update ({ · with nread := 0, mark := 0, field_len := 0, field_start := 0 })

/-- A call sets the marks back to the front of the buffer. -/
theorem Between.follows (h : Between msg start c l s) (hne : buffer ≠ []) :
    Follows msg start c buffer.length (mode s.parser.cs) l
      (s.update ({ · with nread := 0, mark := 0, field_len := 0, field_start := 0 })) := by
  have hlen : 0 < buffer.length := List.length_pos_iff.mpr hne
  have hmarked := h.marked
  exact {
    mark := (Nat.sub_eq_zero_of_le hmarked.mark).symm
    field_start := (Nat.sub_eq_zero_of_le hmarked.field_start).symm
    field_len := fun _ =>
      (Nat.sub_eq_zero_of_le (Nat.le_trans hmarked.field_end (Nat.le_max_right ..))).symm
    query_start := h.query_start
    body_start := fun _ => h.body_start
    mark_lt := hlen
    field_start_lt := hlen
    field_len_le := Nat.zero_le _
    body_start_le := h.body_start.symm ▸ Nat.zero_le _
    data := h.data
    error := h.error
    carried := h.carried }

/-- **A call of the parser** on a read follows the layout, or throws at the query. -/
theorem Between.execute {uri_relaxed : Bool} (h : Between msg start c l s)
    (hrelaxed : s.parser.uri_relaxed = uri_relaxed) (hne : buffer ≠ [])
    (hbuf : buffer <+: msg.drop c) (hstart : ∀ q, c ≤ q → q < c + buffer.length → start q = c)
    (hsize : Sized msg start) {r : Scan ℕ UInt8 Action}
    (hr : (automaton uri_relaxed).scan s.parser.cs c buffer = r) :
    (∃ s' m', s.execute buffer = some (s', r.pos - c, buffer.drop (r.pos - c)) ∧
        s'.parser.cs = r.verdict.state?.getD 0 ∧ s'.parser.uri_relaxed = uri_relaxed ∧
        (∀ cs', r.verdict.state? = some cs' → m' = mode cs') ∧
        Follows msg start c buffer.length m' (r.events.foldl Layout.note l) s') ∨
      s.execute buffer = none ∧ ¬ (r.events.foldl Layout.note l).Carried start := by
  subst hr
  have hpos := (automaton uri_relaxed).pos_le s.parser.cs c buffer
  obtain ⟨m', hm', htracks⟩ := (h.follows hne).scan uri_relaxed h.marked hbuf hstart hsize
    (length_of_sized hsize hbuf hne hstart)
  set s₀ := s.update ({ · with nread := 0, mark := 0, field_len := 0, field_start := 0 }) with hs₀
  have hexec := exec_eq buffer (s := s₀) buffer h.state.2 (Nat.le_refl c)
    (show s₀.parser.uri_relaxed = uri_relaxed from hrelaxed)
  rw [Nat.sub_self] at hexec
  unfold HttpRequestParser.execute httpParserExecute
  rw [if_neg hne]
  simp only [← hs₀, show s₀.parser.cs = s.parser.cs from rfl, hexec]
  cases hplay : (((automaton uri_relaxed).scan s.parser.cs c buffer).events.foldl
      (play buffer c) (some s₀)) with
  | none =>
    rw [hplay] at htracks
    exact .inr ⟨rfl, htracks⟩
  | some s₁ =>
    rw [hplay] at htracks
    -- the actions leave the state alone, so the parser sees no error before the end
    obtain ⟨hcs, hnread, hkept⟩ := kept_play hplay
    have herror : s₁.parser.hasError = false :=
      decide_eq_false (by rw [hcs]; exact h.state.1)
    have hzero : s₁.parser.nread = 0 := hnread
    have hfollows : Follows msg start c buffer.length m' _ s₁ := htracks
    set cs' := ((automaton uri_relaxed).scan s.parser.cs c buffer).verdict.state?.getD 0 with hcs'
    refine .inl ⟨(s₁.update ({ · with cs := cs' })).update ({ · with
      nread := ((automaton uri_relaxed).scan s.parser.cs c buffer).pos - c }), m', ?_, rfl,
      hkept.trans hrelaxed, hm', { hfollows with }⟩
    -- the assertions at the end of the call
    have hbounds : (((s₁.update ({ · with cs := cs' })).update ({ · with
        nread := ((automaton uri_relaxed).scan s.parser.cs c buffer).pos - c })).parser).inBounds
        buffer.length :=
      ⟨by simp only [HttpRequestParser.update]; omega, hfollows.body_start_le, hfollows.mark_lt,
        hfollows.field_len_le, hfollows.field_start_lt⟩
    simp only [HttpRequestParser.update] at hbounds ⊢
    simp only [Option.map_some, Option.bind_some, herror, hzero, Nat.zero_add,
      Bool.false_eq_true, if_false, if_pos hbounds]

/-- After a call that wants more, the parser is between two reads. -/
theorem Follows.between {len p : ℕ} (h : Follows msg start c len (mode s.parser.cs) l s)
    (hmarked : l.Marked p (mode s.parser.cs)) (hstate : s.parser.cs ≠ 0 ∧ s.parser.cs < 348) :
    Between msg start p l s where
  state := hstate
  marked := hmarked
  body_start := h.body_start (decide_eq_false (Nat.not_le.mpr hstate.2))
  query_start := h.query_start
  data := h.data
  error := h.error
  carried := h.carried

/-! ## The loop -/

/-- An error stays. -/
theorem error_ne_zero {l' : Layout} (hkept : ∀ k sp, l.token k = some sp → l'.token k = some sp)
    (h : l.error msg start ≠ 0) : l'.error msg start ≠ 0 := by
  have hversion : l.version msg start = some none → l'.version msg start = some none := fun hv => by
    obtain ⟨sp, hsp, hof⟩ := Option.map_eq_some_iff.mp hv
    exact Option.map_eq_some_iff.mpr ⟨sp, hkept .version sp hsp, hof⟩
  have hmethod : l.method msg start = some .invalid_method →
      l'.method msg start = some .invalid_method := fun hm => by
    obtain ⟨sp, hsp, hof⟩ := Option.map_eq_some_iff.mp hm
    exact Option.map_eq_some_iff.mpr ⟨sp, hkept .method sp hsp, hof⟩
  unfold Layout.error at h ⊢
  split_ifs with hv hm
  · decide
  · decide
  · rw [if_neg fun hv' => hv (hversion hv'), if_neg fun hm' => hm (hmethod hm')] at h
    exact h

theorem toInt_of_lt {n : ℕ} (h : n < 2 ^ 31) : toInt n = n := by
  unfold toInt
  rw [Int.bmod_eq_of_le (by omega) (by omega)]

/-- **The loop of `recvRequest`** on reads that make up the rest of a message: it succeeds when the
query does not throw and the callbacks set no error, with the request of the layout. -/
theorem Between.recvLoop {uri_relaxed : Bool} {buff_size cs' : ℕ} {reads : List (List UInt8)}
    (h : Between msg start c l s) (hrelaxed : s.parser.uri_relaxed = uri_relaxed)
    (hmsg : reads.flatten = msg.drop c)
    (hread : ∀ read ∈ reads, read ≠ [] ∧ read.length ≤ buff_size) (hbuff : buff_size < 2 ^ 31)
    (hsize : msg.length < 2 ^ 64) (hstart : ∀ q, c ≤ q → start q = c + readStart reads (q - c))
    {r : Scan ℕ UInt8 Action}
    (hr : (automaton uri_relaxed).scan s.parser.cs c reads.flatten = r)
    (hended : r.verdict = .ended cs') (d : HttpRequest) :
    (recvLoop buff_size s [] reads).map (fun x => x.1.data) = some d ↔
      (r.events.foldl Layout.note l).Carried start ∧
        (r.events.foldl Layout.note l).error msg start = 0 ∧
        (r.events.foldl Layout.note l).request msg start = d := by
  -- on the reads; `Between` is what one call leaves to the next
  induction reads generalizing c l s r with
  | nil =>
    subst hr
    cases hended
  | cons read reads ih =>
    obtain ⟨hne, hlen⟩ := hread read (by simp)
    have hpos : 0 < read.length := List.length_pos_iff.mpr hne
    have hbuf : read <+: msg.drop c := ⟨reads.flatten, by rw [← hmsg, List.flatten_cons]⟩
    have hfirst : ∀ q, c ≤ q → q < c + read.length → start q = c := fun q hc hq => by
      rw [hstart q hc, readStart, if_pos (by omega), Nat.add_zero]
    rw [List.flatten_cons] at hr
    set r₁ := (automaton uri_relaxed).scan s.parser.cs c read with hr₁
    rw [Http.recvLoop, if_neg hne, List.nil_append]
    have herror : ∀ s' : HttpRequestParser, s'.parser.cs ≠ 0 →
        (s'.hasError = true ↔ s'.error ≠ 0) := fun s' hs' => by
      simp [HttpRequestParser.hasError, HttpParser.hasError, hs']
    cases hv : r₁.verdict with
    | error =>
      rw [Automaton.scan_append_of_ne (by rw [← hr₁, hv]; exact fun _ h => nomatch h)] at hr
      rw [← hr, ← hr₁, hv] at hended
      cases hended
    | ended cs₁ =>
      -- this read holds the end of the message
      rw [Automaton.scan_append_of_ne (by rw [← hr₁, hv]; exact fun _ h => nomatch h)] at hr
      obtain rfl : r₁ = r := hr
      have hstate : r₁.verdict.state? = some cs₁ := by rw [hv]; rfl
      obtain ⟨hcs₀, hlt⟩ := verdict_final h.state.1 h.state.2 hstate
      rcases h.execute hrelaxed hne hbuf hfirst (sized_of_lt hsize start) hr₁.symm with
        ⟨s', m', hexec, hcs, -, -, hfollows⟩ | ⟨hexec, hthrown⟩
      · rw [hstate] at hcs
        have hbehind := Automaton.lt_pos_of_ended (hr₁ ▸ hv)
        rw [← hr₁] at hbehind hlt
        have hleft : ((read.drop (r₁.pos - c)).length : Int) ≠ toInt buff_size := by
          rw [toInt_of_lt hbuff, List.length_drop]
          omega
        have hfinished : s'.parser.hasError = false → s'.isFinished = true := fun hno => by
          simp only [HttpRequestParser.isFinished, HttpParser.finish, hno, HttpParser.isFinished,
            hcs]
          have : 348 ≤ cs₁ := Nat.not_lt.mp fun hcs₁ => by simp [hlt.mp hcs₁] at hv
          simp [this]
        rw [hexec, Option.bind_some]
        simp only
        by_cases hzero : s'.error = 0
        · have hno : s'.hasError = false := by
            rw [Bool.eq_false_iff, Ne, herror s' (hcs ▸ hcs₀)]
            exact not_not.mpr hzero
          have hno' : s'.parser.hasError = false := by
            rw [HttpRequestParser.hasError, Bool.or_eq_false_iff] at hno
            exact hno.2
          simp only [hno, hfinished hno', Bool.false_eq_true, if_false, if_neg hleft, if_true,
            Option.map_some, Option.some.injEq, hfollows.data, ← hfollows.error, hzero, true_and]
          exact ⟨fun hd => ⟨hfollows.carried, hd⟩, fun hd => hd.2⟩
        · rw [if_pos ((herror s' (hcs ▸ hcs₀)).mpr hzero)]
          exact ⟨(fun hd => nomatch hd), fun hd => absurd (hfollows.error.trans hd.2.1) hzero⟩
      · rw [hexec]
        exact ⟨(fun hd => nomatch hd), fun hd => absurd hd.1 hthrown⟩
    -- the parser takes all of this read and wants more
    | more cs₁ =>
      rw [Automaton.scan_append (hr₁ ▸ hv), ← hr₁] at hr
      subst hr
      have hstate : r₁.verdict.state? = some cs₁ := by rw [hv]; rfl
      obtain ⟨hcs₀, hlt⟩ := verdict_final h.state.1 h.state.2 hstate
      have hpos₁ : r₁.pos = c + read.length := Automaton.pos_of_more (hr₁ ▸ hv)
      have hmarked := (h.marked.scan hstate).1
      rw [← hr₁] at hlt hmarked
      rw [hpos₁] at hmarked
      have hlast : ((automaton uri_relaxed).scan cs₁ (c + read.length)
          reads.flatten).verdict.state? = some cs' := by rw [hended]; rfl
      have hkept := (hmarked.scan hlast).2
      simp only [List.foldl_append]
      rcases h.execute hrelaxed hne hbuf hfirst (sized_of_lt hsize start) hr₁.symm with
        ⟨s', m', hexec, hcs, hrelaxed', hmode, hfollows⟩ | ⟨hexec, hthrown⟩
      · rw [hstate] at hcs
        obtain rfl := hmode cs₁ hstate
        rw [hexec, Option.bind_some]
        simp only
        by_cases hzero : s'.error = 0
        · have hno : s'.hasError = false := by
            rw [Bool.eq_false_iff, Ne, herror s' (hcs ▸ hcs₀)]
            exact not_not.mpr hzero
          have hunfinished : s'.isFinished = false := by
            simp [HttpRequestParser.isFinished, HttpParser.finish, HttpParser.hasError,
              HttpParser.isFinished, hcs, hcs₀, Nat.not_le.mpr (hlt.mpr hv)]
          have hnil : read.drop (r₁.pos - c) = [] := by
            rw [hpos₁, Nat.add_sub_cancel_left, List.drop_length]
          have hleft : (([] : List UInt8).length : Int) ≠ toInt buff_size := by
            rw [toInt_of_lt hbuff, List.length_nil]
            omega
          simp only [hno, hunfinished, hnil, Bool.false_eq_true, if_false, if_neg hleft]
          subst hcs
          refine ih (hfollows.between hmarked ⟨hcs₀, hlt.mpr hv⟩) hrelaxed' ?_
            (fun read hr => hread read (List.mem_cons_of_mem _ hr)) (fun q hq => ?_) rfl hended
          · rw [← List.drop_drop, ← hmsg, List.flatten_cons, List.drop_left]
          · rw [hstart q (by omega), readStart, if_neg (by omega), ← Nat.sub_sub]
            omega
        · rw [if_pos ((herror s' (hcs ▸ hcs₀)).mpr hzero)]
          -- an error stays: the request is refused whatever follows
          refine ⟨(fun hd => nomatch hd), fun hd => absurd hd.2.1 (error_ne_zero hkept ?_)⟩
          rwa [← hfollows.error]
      · rw [hexec]
        -- a mark that is lost stays lost
        refine ⟨(fun hd => nomatch hd), fun hd => absurd (fun sp hsp => ?_) hthrown⟩
        exact hd.1 sp (hkept .query sp hsp)

end Http

end Sylar
