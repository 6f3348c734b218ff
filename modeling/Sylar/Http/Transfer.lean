import Sylar.Foundation.Signed
import Sylar.Http.Limits
import Sylar.Http.Replies
import Sylar.Http.Session

/-!
# Receiving a printed message

A call whose first read brings the whole head of a message needs nothing but the bytes of the body:
whatever pieces they come in, it stores them one behind the other and returns with the last one.
The heads that `HttpRequest::dump` and `HttpResponse::dump` print are taken so by the parsers.

## Main definitions

* `Awaits`: a call that has the head of a message, with what is still to come of the body
* `Incoming`: a message on the way to a call
* `HttpMessage.headText`, `HttpMessage.received`: the head of a printed request, and the request
  that is received

## Main results

* `exists_step_head`, `exists_step_body`: the first read of a message, and a further one
* `Incoming.read`: a read of a message on the way
* `execute_headText`: a parser takes the head of a printed request
-/

namespace Sylar

open Foundation

namespace Http

-- `decide` runs through a list, and not through all bytes
attribute [local instance (high)] List.decidableBAll Option.decidableForallMem

/-! ## The body of an announced length -/

section Body

variable {σ : Type} {p : MessageParser σ} {buff_size : ℕ} {s t : Call σ} {parser parser₀ : σ}
  {body front rest d : List UInt8}

/-- **A call that has the head of a message** and the body but for the bytes that are still to come:
it has returned, or it is in `readFixSize`, with the string filled up to them. -/
inductive Awaits (parser : σ) (body : List UInt8) : List UInt8 → Call σ → Prop
  | returned {s : Call σ} : s.parser = parser → s.point = .returned → s.body = body →
      Awaits parser body [] s
  | missing {s : Call σ} {front rest : List UInt8} (length : ℕ) : s.parser = parser →
      s.point = .body length rest.length → 0 < toInt length → rest ≠ [] → body = front ++ rest →
      s.body = front ++ List.replicate rest.length 0 → Awaits parser body rest s

theorem splice_zeros (front d : List UInt8) (n : ℕ) :
    splice (front ++ List.replicate (d.length + n) 0) front.length d =
      (front ++ d) ++ List.replicate n 0 := by
  have hright := splice_append_right front (List.replicate (d.length + n) 0) d 0
  rw [Nat.add_zero] at hright
  have hzeros : splice (List.replicate (d.length + n) 0) 0 d = d ++ List.replicate n 0 := by
    rw [splice, List.take_zero, List.nil_append, Nat.zero_add, List.drop_replicate,
      Nat.add_sub_cancel_left]
  rw [hright, hzeros, List.append_assoc]

/-- **The first read** brings the head and some of the body. -/
theorem exists_step_head {n : ℕ} (hexec : p.execute parser₀ d = some (parser, n, front))
    (haccepted : Accepted p buff_size parser front) (hchunked : p.chunked parser = false)
    (hlength : toInt64 (p.getContentLength parser) = body.length) (hbody : body = front ++ rest)
    (hint : body.length < 2 ^ 31) (hd : d ≠ []) (hroom : d.length ≤ buff_size)
    (hread : d.length < 2 ^ 31) :
    ∃ t, Call.step p buff_size (.start parser₀) (.got d) = some t ∧ Awaits parser body rest t := by
  have hreceive := receive_header (s := .start parser₀) rfl hd hexec haccepted
  rw [Call.behindHeader, if_neg (Bool.not_eq_true _ ▸ hchunked), hlength] at hreceive
  have hstep : Call.step p buff_size (.start parser₀) (.got d) =
      (Call.start parser₀).receive p buff_size d := if_pos ⟨hroom, hread⟩
  rw [hstep, hreceive]
  by_cases hnil : body = []
  · obtain ⟨rfl, rfl⟩ := List.append_eq_nil_iff.mp (hbody.symm.trans hnil)
    subst hnil
    exact ⟨_, rfl, .returned rfl rfl rfl⟩
  have hpos : (0 : Int) < body.length := Int.natCast_pos.mpr (List.length_pos_iff.mpr hnil)
  have hlen : body.length = front.length + rest.length := by
    rw [hbody, List.length_append]
  unfold Call.startBody
  -- the string has the length of the body, with the bytes that are there in front
  have htake : (if (front.length : Int) ≤ body.length then front.length
      else (body.length : Int).toNat) = front.length := if_pos (by omega)
  have hstore : storeAt (List.replicate (body.length : Int).toNat 0) 0 front =
      some (front ++ List.replicate rest.length 0) := by
    have hzeros := splice_zeros [] front rest.length
    rw [List.nil_append, List.nil_append, List.length_nil, ← hlen] at hzeros
    rw [Int.toNat_natCast, storeAt_new (by omega), hzeros]
  simp only [if_pos hpos, htake, List.take_length, hstore, Option.map_some]
  by_cases hrest : rest = []
  · subst hrest
    rw [List.append_nil] at hbody
    rw [if_neg (by rw [hbody]; omega)]
    exact ⟨_, rfl, .returned rfl rfl (by rw [hbody, List.length_nil]; exact List.append_nil _)⟩
  · have hmissing : (body.length : Int) - front.length = rest.length := by omega
    have hpos' := List.length_pos_iff.mpr hrest
    rw [if_pos (by omega), hmissing, Int.toNat_natCast]
    refine ⟨_, rfl, .missing rest.length rfl rfl ?_ hrest hbody rfl⟩
    rw [show toInt rest.length = rest.length from signed32_of_lt (by omega)]
    omega

/-- **A further read** brings the next bytes of the body. -/
theorem exists_step_body (h : Awaits parser body (d ++ rest) s) (hd : d ≠ [])
    (hint : body.length < 2 ^ 31) :
    ∃ t, Call.step p buff_size s (.got d) = some t ∧ Awaits parser body rest t := by
  generalize hmore : d ++ rest = more at h
  cases h with
  | returned => exact absurd (List.append_eq_nil_iff.mp hmore).1 hd
  | @missing _ front _ length hparser hpoint hpos hne hbody hstored =>
    subst hmore
    rw [List.length_append] at hpoint hstored
    have hpos' := List.length_pos_iff.mpr hd
    have hlen : body.length = front.length + (d.length + rest.length) := by
      rw [hbody, List.length_append, List.length_append]
    have hroom : d.length ≤ s.room buff_size := by
      unfold Call.room
      simp only [hpoint]
      omega
    have hread : s.body.length = front.length + (d.length + rest.length) := by
      rw [hstored, List.length_append, List.length_replicate]
    have hstore : storeAt s.body (s.body.length - (d.length + rest.length)) d =
        some (front ++ d ++ List.replicate rest.length 0) := by
      rw [hread, Nat.add_sub_cancel, storeAt, hread, if_pos (by omega), hstored, splice_zeros]
    have hstep : Call.step p buff_size s (.got d) = s.receive p buff_size d :=
      if_pos ⟨hroom, by omega⟩
    rw [hstep, Call.receive]
    simp only [hpoint, if_neg hd, if_pos (show d.length + rest.length ≤ s.body.length by omega),
      hstore, Option.map_some, Nat.add_sub_cancel_left]
    by_cases hrest : rest = []
    · subst hrest
      rw [if_neg (by simp), Call.finishBody, if_neg (not_le.mpr hpos)]
      refine ⟨_, rfl, .returned hparser rfl ?_⟩
      rw [hbody, List.append_nil]
      exact List.append_nil _
    · rw [if_pos (List.length_pos_iff.mpr hrest)]
      refine ⟨_, rfl, .missing length hparser rfl hpos hrest ?_ rfl⟩
      rw [hbody, List.append_assoc]

/-! ## A message on the way -/

/-- **A parser takes the head of a message**, with what has come of its body, and knows the length
of the body; `Q` is what is known of it then. -/
def TakesHead (p : MessageParser σ) (buff_size : ℕ) (head body : List UInt8) (Q : σ → Prop)
    (parser₀ : σ) : Prop :=
  ∀ front, (head ++ front).length ≤ buff_size → ∃ parser,
    p.execute parser₀ (head ++ front) = some (parser, head.length, front) ∧ Q parser ∧
      p.hasError parser = false ∧ p.isFinished parser = true ∧ p.chunked parser = false ∧
      toInt64 (p.getContentLength parser) = body.length

/-- **A message on the way** to a call, with the bytes that are still to come: all of them, or some
of the body. -/
inductive Incoming (p : MessageParser σ) (buff_size : ℕ) (head body : List UInt8) (Q : σ → Prop) :
    List UInt8 → Call σ → Prop
  | whole {parser₀ : σ} : TakesHead p buff_size head body Q parser₀ →
      Incoming p buff_size head body Q (head ++ body) (.start parser₀)
  | partly {parser : σ} {rest : List UInt8} {s : Call σ} : Q parser → rest ≠ [] →
      Awaits parser body rest s → Incoming p buff_size head body Q rest s

variable {head : List UInt8} {Q : σ → Prop} {n : ℕ}

theorem Incoming.ne_nil (h : Incoming p buff_size head body Q rest s) (hhead : head ≠ []) :
    rest ≠ [] := by
  cases h with
  | whole => exact List.append_ne_nil_of_left_ne_nil hhead body
  | partly _ hne => exact hne

/-- What a read makes of a message on the way. -/
theorem Awaits.cases_point (hQ : Q parser) (h : Awaits parser body rest t) :
    t.point = .returned ∧ Q t.parser ∧ t.body = body ∧ rest = [] ∨
      t.point ≠ .returned ∧ t.point ≠ .closed ∧ Incoming p buff_size head body Q rest t := by
  cases h with
  | returned hparser hpoint hbody => exact .inl ⟨hpoint, hparser ▸ hQ, hbody, rfl⟩
  | missing length hparser hpoint hpos hne hbody hstored =>
    refine .inr ⟨?_, ?_, .partly hQ hne (.missing length hparser hpoint hpos hne hbody hstored)⟩
    · rw [hpoint]
      rintro ⟨⟩
    · rw [hpoint]
      rintro ⟨⟩

/-- **A read of a message on the way**, of the whole head if nothing has been read: the call has
the message, or goes on with the rest of it. -/
theorem Incoming.read (h : Incoming p buff_size head body Q rest s) (hbuff : buff_size < 2 ^ 31)
    (hint : body.length < 2 ^ 31) (hhead : head ≠ []) (hn : n ≠ 0) (hle : n ≤ rest.length)
    (hwhole : s.point = .header → head.length ≤ n)
    (hstep : Call.step p buff_size s (.got (rest.take n)) = some t) :
    t.point = .returned ∧ Q t.parser ∧ t.body = body ∧ rest.drop n = [] ∨
      t.point ≠ .returned ∧ t.point ≠ .closed ∧
        Incoming p buff_size head body Q (rest.drop n) t := by
  have hlen : (rest.take n).length = n := List.length_take_of_le hle
  have hd : rest.take n ≠ [] := by
    rw [← List.length_pos_iff, hlen]
    exact Nat.pos_of_ne_zero hn
  cases h with
  | whole htakes =>
    have hroom : n ≤ buff_size := by
      rw [Call.step, Option.ite_none_right_eq_some] at hstep
      simpa [Call.room, Call.start, hlen] using hstep.1.1
    have hfront := hwhole rfl
    have hpos := List.length_pos_iff.mpr hhead
    have htake : (head ++ body).take n = head ++ body.take (n - head.length) := by
      rw [List.take_append, List.take_of_length_le hfront]
    have hdrop : (head ++ body).drop n = body.drop (n - head.length) := by
      rw [List.drop_append, List.drop_eq_nil_of_le hfront, List.nil_append]
    rw [htake] at hlen hd hstep
    obtain ⟨parser, hexec, hQ, herror, hfinished, hchunked, hlength⟩ :=
      htakes (body.take (n - head.length)) (by omega)
    -- behind the head there is less than the buffer has room for
    have hleft : ((body.take (n - head.length)).length : Int) ≠ toInt buff_size := by
      rw [List.length_append] at hlen
      rw [show toInt buff_size = buff_size from signed32_of_lt hbuff]
      omega
    obtain ⟨t', hstep', hawaits⟩ := exists_step_head hexec ⟨herror, hleft, hfinished⟩ hchunked
      hlength (List.take_append_drop (n - head.length) body).symm hint hd (by omega) (by omega)
    obtain rfl : t' = t := Option.some.inj (hstep'.symm.trans hstep)
    rw [hdrop]
    exact hawaits.cases_point hQ
  | partly hQ hne hawaits =>
    rw [← List.take_append_drop n rest] at hawaits
    obtain ⟨t', hstep', hawaits'⟩ := exists_step_body hawaits hd hint
    obtain rfl : t' = t := Option.some.inj (hstep'.symm.trans hstep)
    exact hawaits'.cases_point hQ

end Body

/-! ## The head of a message -/

section Head

variable {memory : HttpParser} {parser : HttpRequestParser} {header body : List UInt8}

/-- **The header of a message** decides what a parser makes of it, whatever comes behind. -/
theorem execute_front (hsize : (header ++ body).length < 2 ^ 64)
    (hexec : (HttpRequestParser.new memory).execute (header ++ body) =
      some (parser, header.length, body))
    (hdone : parser.hasError = false ∧ parser.isFinished = true) {front : List UInt8}
    (hfront : (header ++ front).length < 2 ^ 64) :
    ∃ parser', (HttpRequestParser.new memory).execute (header ++ front) =
        some (parser', header.length, front) ∧
      parser'.data = parser.data ∧ parser'.hasError = false ∧ parser'.isFinished = true := by
  have hended := ended_of_execute hexec hdone.1 hdone.2
  obtain ⟨parser₀, hexec₀, hcs₀, hdata₀, herror₀⟩ := execute_of_ended hsize hended
  obtain ⟨rfl, hpos, -⟩ : parser = parser₀ ∧ header.length =
      ((automaton memory.uri_relaxed).scan 1 0 (header ++ body)).pos ∧ _ := by
    simpa using hexec.symm.trans hexec₀
  -- the machine does not want more behind the header
  have hstops : ∀ cs, ((automaton memory.uri_relaxed).scan 1 0 header).verdict ≠ .more cs := by
    intro cs hmore
    rw [Automaton.scan_append hmore] at hended hpos
    have hlt := Automaton.lt_pos_of_ended hended
    simp only [Nat.zero_add] at hlt hpos
    omega
  have hscan : ∀ rest, (automaton memory.uri_relaxed).scan 1 0 (header ++ rest) =
      (automaton memory.uri_relaxed).scan 1 0 header :=
    fun rest => Automaton.scan_append_of_ne hstops
  rw [hscan] at hended hpos
  have hstate : ((automaton memory.uri_relaxed).scan 1 0 header).verdict.state? =
      some parser.parser.cs := by
    rw [hended]
    rfl
  have hrequest := (Layout.marked_empty.scan hstate).1.request_append hpos.ge fun _ => 0
  obtain ⟨parser', hexec', hcs', hdata', herror'⟩ := execute_of_ended hfront
    ((congrArg Scan.verdict (hscan front)).trans hended)
  rw [hscan, ← hpos, List.drop_left] at hexec'
  rw [layout, hscan] at hdata₀ herror₀ hdata' herror'
  have hnone : parser.error = 0 := by
    simpa using (Bool.or_eq_false_iff.mp hdone.1).1
  refine ⟨parser', hexec', ?_, finished_of_ended hended hcs' ?_⟩
  · exact hdata'.trans ((hrequest front).1.trans ((hrequest body).1.symm.trans hdata₀.symm))
  · exact herror'.trans ((hrequest front).2.trans
      ((hrequest body).2.symm.trans (herror₀.symm.trans hnone)))

end Head

namespace HttpMessage

variable {lexicalCast : List UInt8 → Option UInt64} {memory : HttpParser} {request : HttpMessage}

/-- What `dump` prints in front of the body. -/
def headText (request : HttpMessage) : List UInt8 :=
  request.requestLine ++ request.lines.flatMap Line.dump ++ [13, 10]

/-- The request that is received: the headers are those of the text. -/
def received (request : HttpMessage) : HttpMessage :=
  { request with headers := request.printedHeaders }

theorem dump_headText {uri_relaxed : Bool} (h : Printable uri_relaxed request) :
    request.dump = request.headText ++ request.body := by
  rw [dump_eq h, headText, List.append_assoc _ [13, 10]]

/-- The connection that is received is that of the request. -/
theorem receive_printed {uri_relaxed : Bool} (h : Printable uri_relaxed request) :
    HttpRequest.receive { request.toHttpRequest with headers := request.printedHeaders }
      request.body = request.received := by
  obtain ⟨-, hsorted, hmem⟩ := headers_eq h
  have hname : foldCase (bytes "connection") = foldCase (bytes "Connection") := by decide
  have hfind : findHeader (bytes "Connection") request.printedHeaders =
      some (bytes (if request.close then "close" else "keep-alive")) :=
    (findHeader_eq_some hsorted).mpr
      ⟨request.connection, (hmem _).mpr (.inr (.inl rfl)), hname, rfl⟩
  have hclose : (!strcasecmp (bytes (if request.close then "close" else "keep-alive"))
      (bytes "keep-alive")) = request.close := by
    cases request.close
    · decide
    · decide
  rw [HttpRequest.receive, HttpRequest.getHeader, hfind, Option.getD_some, hclose]
  rfl

/-- **A parser takes the head of a printed request**, with what has come of its body. -/
theorem execute_headText
    (hlexical : ∀ n : UInt64, lexicalCast (bytes (toString n.toNat)) = some n)
    (hsize : request.dump.length < 2 ^ 64) (h : Printable memory.uri_relaxed request)
    (hm : request.method ≠ .msearch) {front : List UInt8}
    (hfront : (request.headText ++ front).length < 2 ^ 64) :
    ∃ parser, (HttpRequestParser.new memory).execute (request.headText ++ front) =
        some (parser, request.headText.length, front) ∧
      parser.data = { request.toHttpRequest with headers := request.printedHeaders } ∧
      parser.hasError = false ∧ parser.isFinished = true ∧
      (parser.data.getContentLength lexicalCast).toNat = request.body.length := by
  obtain ⟨parser, n, hexec, hconsumed, hdone, hdata, hlength⟩ :=
    parsesBack_of_ne hlexical hsize h hm
  rw [dump_headText h, List.length_append, Nat.add_right_cancel_iff] at hconsumed
  rw [hconsumed, dump_headText h] at hexec
  rw [dump_headText h] at hsize
  obtain ⟨parser', hexec', hdata', herror, hfinished⟩ := execute_front hsize hexec hdone hfront
  exact ⟨parser', hexec', hdata'.trans hdata, herror, hfinished, hdata' ▸ hlength⟩

end HttpMessage

end Http

end Sylar
