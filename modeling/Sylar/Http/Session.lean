import Sylar.Foundation.Stream
import Sylar.Http.Message
import Sylar.Http.Segmentation

/-!
# Requests on a connection

A call of `recvRequest` reads from the socket until the parser has a header, takes what it needs
of the body from behind it, and reads the rest of the body. What it has read behind the body goes
away with its buffer.

A socket is the list of the segments in which its bytes arrive; each parser is built in memory of
its own.

## Main definitions

* `recvHeader`, `recvRequest`, `recvRequests`: the loop of a call, a call, and successive calls
* `WireRequest`: a well-formed request
* `Fits`: the read of a header stops in its request

## Main results

* `recvRequest_eq`: what a call makes of a stream that begins with a request
* `keepAlive_iff`: successive calls get the requests in order, and leave the rest of them, exactly
  if the read of every header stops in its request
-/

namespace Sylar

open Foundation

namespace Http

/-! ## Calls -/

/-- A round of the loop of `recvRequest`: a read, and a call of the parser. -/
def recvRead (buff_size : ℕ) (s : HttpRequestParser) (data : List UInt8)
    (socket : List (List UInt8)) :
    Option (HttpRequestParser × List UInt8 × List (List UInt8)) :=
  let r := readSome (buff_size - data.length) socket
  -- the length of the read is an `int`
  if r.1 = [] ∨ toInt r.1.length ≤ 0 then none
  else
    -- the parser gets what was left from the start, and leaves what it did not take
    (s.execute (data ++ r.1)).bind fun (s, _, data) =>
      if s.hasError then none
      else if data.length = toInt buff_size then none
      else some (s, data, r.2)

theorem length_readSome_lt {n : ℕ} {socket : List (List UInt8)} (h : (readSome n socket).1 ≠ []) :
    (readSome n socket).2.flatten.length < socket.flatten.length := by
  cases socket with
  | nil => exact absurd rfl h
  | cons segment socket =>
    rw [readSome] at h ⊢
    rw [List.flatten_cons, List.length_append]
    split_ifs at h ⊢ with hle
    · exact Nat.lt_add_of_pos_left (List.length_pos_iff.mpr h)
    · have hpos := List.length_pos_iff.mpr h
      rw [List.length_take] at hpos
      rw [List.flatten_cons, List.length_append, List.length_drop]
      omega

variable {buff_size : ℕ} {s s' : HttpRequestParser} {data data' : List UInt8}
  {socket socket' : List (List UInt8)}

/-- A round reads at least one byte. -/
theorem length_recvRead_lt (h : recvRead buff_size s data socket = some (s', data', socket')) :
    socket'.flatten.length < socket.flatten.length := by
  unfold recvRead at h
  simp only at h
  split_ifs at h with hread
  obtain ⟨r, -, hround⟩ := Option.bind_eq_some_iff.mp h
  split_ifs at hround
  obtain ⟨-, -, rfl⟩ := hround
  exact length_readSome_lt fun hnil => hread (.inl hnil)

/-- The loop of `recvRequest`: the parser when it has finished, the data behind the header, and
the socket. -/
def recvHeader (buff_size : ℕ) (s : HttpRequestParser) (data : List UInt8)
    (socket : List (List UInt8)) :
    Option (HttpRequestParser × List UInt8 × List (List UInt8)) :=
  match _h : recvRead buff_size s data socket with
  | none => none
  | some (s, data, rest) =>
    if s.isFinished then some (s, data, rest) else recvHeader buff_size s data rest
termination_by socket.flatten.length
decreasing_by exact length_recvRead_lt _h

/-- The conversion to `int64_t`. -/
def toInt64 (n : UInt64) : Int := Int.bmod n.toNat (2 ^ 64)

/-- The body of a request, from the data behind its header and from the socket. -/
def recvBody (length : Int) (data : List UInt8) (socket : List (List UInt8)) :
    Option (List UInt8 × List (List UInt8)) :=
  if 0 < length then
    -- what is left behind the header; a longer rest is dropped
    let body := if data.length ≤ length then data else data.take length.toNat
    let left := length - data.length
    if 0 < left then
      (readExact left.toNat socket).bind fun (rest, socket) =>
        -- `readFixSize` returns the length as an `int`
        if toInt left.toNat ≤ 0 then none else some (body ++ rest, socket)
    else some (body, socket)
  else some ([], socket)

/-- `HttpSession::recvRequest`, with a parser in the given memory: the request and the socket. What
is left of the buffer goes away with it. -/
def recvRequest (lexicalCast : List UInt8 → Option UInt64) (buff_size : ℕ) (memory : HttpParser)
    (socket : List (List UInt8)) : Option (HttpMessage × List (List UInt8)) :=
  (recvHeader buff_size (.new memory) [] socket).bind fun (s, data, socket) =>
    (recvBody (toInt64 (s.data.getContentLength lexicalCast)) data socket).map
      fun (body, socket) => (s.data.receive body, socket)

/-- Successive calls, each with the memory of its parser. -/
def recvRequests (lexicalCast : List UInt8 → Option UInt64) (buff_size : ℕ) :
    List HttpParser → List (List UInt8) → Option (List HttpMessage × List (List UInt8))
  | [], socket => some ([], socket)
  | memory :: memories, socket =>
    (recvRequest lexicalCast buff_size memory socket).bind fun (request, socket) =>
      (recvRequests lexicalCast buff_size memories socket).map fun (requests, socket) =>
        (request :: requests, socket)

/-! ## Requests on the wire -/

/-- What a parser makes of a header that it takes whole and without error. -/
def parseHeader (memory : HttpParser) (header : List UInt8) : Option HttpRequest :=
  ((HttpRequestParser.new memory).execute header).bind fun (s, _, rest) =>
    if s.hasError = false ∧ s.isFinished = true ∧ rest = [] then some s.data else none

/-- A well-formed request: the parser takes its header, which announces the length of its body.
The memory is that of the parser that gets it. -/
structure WireRequest (lexicalCast : List UInt8 → Option UInt64) where
  memory : HttpParser
  header : List UInt8
  body : List UInt8
  data : HttpRequest
  parsed : parseHeader memory header = some data
  announced : toInt64 (data.getContentLength lexicalCast) = body.length

variable {lexicalCast : List UInt8 → Option UInt64}

namespace WireRequest

def bytes (request : WireRequest lexicalCast) : List UInt8 := request.header ++ request.body

/-- The request that `recvRequest` is to return. -/
def message (request : WireRequest lexicalCast) : HttpMessage := request.data.receive request.body

end WireRequest

/-- The bytes of requests, one after the other. -/
def stream (requests : List (WireRequest lexicalCast)) : List UInt8 :=
  requests.flatMap WireRequest.bytes

/-- Where a read into an empty buffer stops that starts at the byte `start`. -/
def readStop (buff_size : ℕ) (segments : List (List UInt8)) (start : ℕ) : ℕ :=
  min (segmentEnd segments start) (start + buff_size)

/-- **The read of a header stops in its request**, which lies between `start` and `stop`. The
lengths that the code keeps as an `int` stay what they are: that of the read, that of what is
missing of the body; and what is left of the buffer is not taken for a full one. -/
def Fits (buff_size : ℕ) (segments : List (List UInt8)) (start header stop : ℕ) : Prop :=
  readStop buff_size segments start ≤ stop ∧
    0 < toInt (readStop buff_size segments start - start) ∧
    (readStop buff_size segments start - start - header : ℕ) ≠ toInt buff_size ∧
    (readStop buff_size segments start = stop ∨
      0 < toInt (stop - readStop buff_size segments start))

instance (buff_size : ℕ) (segments : List (List UInt8)) (start header stop : ℕ) :
    Decidable (Fits buff_size segments start header stop) := by
  unfold Fits
  infer_instance

/-! ## A call -/

theorem recvHeader_eq (buff_size : ℕ) (s : HttpRequestParser) (data : List UInt8)
    (socket : List (List UInt8)) : recvHeader buff_size s data socket =
      (recvRead buff_size s data socket).bind fun r =>
        if r.1.isFinished then some r else recvHeader buff_size r.1 r.2.1 r.2.2 := by
  rw [recvHeader]
  split
  next h => rw [h]; rfl
  next h => rw [h]; rfl

/-- The header of a request is not empty, and a parser takes it from what comes with it. -/
theorem WireRequest.execute (request : WireRequest lexicalCast) (rest : List UInt8)
    (hsize : (request.header ++ rest).length < 2 ^ 64) : request.header ≠ [] ∧
      ∃ parser, (HttpRequestParser.new request.memory).execute (request.header ++ rest) =
          some (parser, request.header.length, rest) ∧
        parser.data = request.data ∧ parser.hasError = false ∧ parser.isFinished = true := by
  have hparsed := request.parsed
  unfold parseHeader at hparsed
  obtain ⟨⟨parser, n, behind⟩, hexec, hdone⟩ := Option.bind_eq_some_iff.mp hparsed
  simp only at hdone
  split_ifs at hdone with hall
  obtain ⟨herror, hfinished, rfl⟩ := hall
  obtain ⟨parser', hexec', hdata, hdone'⟩ := execute_append hsize hexec herror hfinished
  exact ⟨ne_nil_of_ended (ended_of_execute hexec herror hfinished), parser', hexec',
    hdata.trans (Option.some.inj hdone), hdone'⟩

/-- **The loop of a call** takes the header of the request that the stream begins with, in one
read, or gives up on the length of the read or on what it leaves. -/
theorem recvHeader_request (request : WireRequest lexicalCast) {rest : List UInt8}
    (hbuff : buff_size < 2 ^ 64) (hsegments : ∀ segment ∈ socket, segment ≠ [])
    (hstream : socket.flatten = request.header ++ rest)
    (hheader : request.header.length ≤ readStop buff_size socket 0) :
    ∃ parser, parser.data = request.data ∧
      recvHeader buff_size (.new request.memory) [] socket =
        if toInt (readStop buff_size socket 0) ≤ 0 ∨
            (readStop buff_size socket 0 - request.header.length : ℕ) = toInt buff_size then none
        else some (parser, rest.take (readStop buff_size socket 0 - request.header.length),
          skip (readStop buff_size socket 0) socket) := by
  set stop := readStop buff_size socket 0 with hstop
  set behind := rest.take (stop - request.header.length) with hbehind
  have hmin : stop = min (segmentEnd socket 0) buff_size := by
    rw [hstop, readStop, Nat.zero_add]
  have htotal : segmentEnd socket 0 ≤ socket.flatten.length := segmentEnd_le (Nat.zero_le _)
  rw [hstream, List.length_append] at htotal
  have hlen : behind.length = stop - request.header.length := by
    rw [hbehind, List.length_take]
    omega
  obtain ⟨hne, parser, hexec, hdata, herror, hfinished⟩ := request.execute behind
    (by rw [List.length_append]; omega)
  have hpos : 0 < request.header.length := List.length_pos_iff.mpr hne
  -- the first read brings the header, and what follows it up to the end of the segment
  have hread : readSome buff_size socket = (request.header ++ behind, skip stop socket) := by
    rw [readSome_eq hsegments (by omega), ← hmin, hstream, hbehind, List.take_append,
      List.take_of_length_le hheader]
  have hgot : (request.header ++ behind).length = stop := by
    rw [List.length_append]
    omega
  have hsome : request.header ++ behind ≠ [] := List.append_ne_nil_of_left_ne_nil hne behind
  refine ⟨parser, hdata, ?_⟩
  rw [recvHeader_eq]
  simp only [recvRead, List.length_nil, Nat.sub_zero, hread, List.nil_append, hexec, hgot, hsome,
    false_or, herror, Bool.false_eq_true, if_false, Option.bind_some, hlen]
  by_cases hread : toInt stop ≤ 0
  · rw [if_pos hread, if_pos (.inl hread), Option.bind_none]
  · by_cases hroom : (stop - request.header.length : ℕ) = toInt buff_size
    · rw [if_neg hread, if_pos hroom, if_pos (.inr hroom), Option.bind_none]
    · rw [if_neg hread, if_neg hroom, if_neg (not_or.mpr ⟨hread, hroom⟩), Option.bind_some,
        if_pos hfinished]

/-- **The body** of a request, `n` bytes of which came with its header. -/
theorem recvBody_eq {body rest : List UInt8} {n : ℕ} (hn : n ≤ (body ++ rest).length)
    (hsocket : socket.flatten = (body ++ rest).drop n) :
    recvBody body.length ((body ++ rest).take n) socket =
      if n < body.length ∧ toInt (body.length - n) ≤ 0 then none
      else some (body, skip (body.length - n) socket) := by
  unfold recvBody
  simp only [List.length_take, Nat.min_eq_left hn, Int.toNat_natCast]
  by_cases hbody : body = []
  · subst hbody
    rw [if_neg (by simp), if_neg (by simp), List.length_nil, Nat.zero_sub, skip_zero]
  have hpos := List.length_pos_iff.mpr hbody
  rw [if_pos (by omega)]
  -- what is missing is read from the socket
  by_cases hmissing : n < body.length
  · have hleft : (body.length : Int) - (n : Int) = ((body.length - n : ℕ) : Int) := by omega
    have hrest : socket.flatten.take (body.length - n) = body.drop n := by
      rw [hsocket, List.drop_append_of_le_length (by omega),
        List.take_append_of_le_length (by rw [List.length_drop]),
        List.take_of_length_le (by rw [List.length_drop])]
    have hlen : body.length - n ≤ socket.flatten.length := by
      rw [hsocket, List.length_drop, List.length_append]
      omega
    rw [hleft, if_pos (by omega), Int.toNat_natCast, readExact_eq, if_pos hlen, hrest,
      if_pos (by omega), List.take_append_of_le_length (by omega), Option.bind_some]
    simp only [List.take_append_drop, hmissing, true_and]
  · have hbody : (if (n : Int) ≤ body.length then (body ++ rest).take n
        else ((body ++ rest).take n).take body.length) = body := by
      rw [List.take_take, Nat.min_eq_left (by omega), List.take_left]
      split_ifs with hle
      · rw [show n = body.length by omega, List.take_left]
      · rfl
    rw [if_neg (by omega), hbody, if_neg (fun h => hmissing h.1), Nat.sub_eq_zero_of_le (by omega),
      skip_zero]

/-- **A call** on a stream that begins with a request returns it, unless a length is not what it
is as an `int`, and leaves the socket behind the request, or behind the read of the header if that
goes further. -/
theorem recvRequest_eq (request : WireRequest lexicalCast) {rest : List UInt8}
    (hbuff : buff_size < 2 ^ 64) (hsegments : ∀ segment ∈ socket, segment ≠ [])
    (hstream : socket.flatten = request.bytes ++ rest)
    (hheader : request.header.length ≤ readStop buff_size socket 0) :
    recvRequest lexicalCast buff_size request.memory socket =
      if (toInt (readStop buff_size socket 0) ≤ 0 ∨
            (readStop buff_size socket 0 - request.header.length : ℕ) = toInt buff_size) ∨
          readStop buff_size socket 0 < request.bytes.length ∧
            toInt (request.bytes.length - readStop buff_size socket 0) ≤ 0 then none
      else some (request.message,
        skip (max (readStop buff_size socket 0) request.bytes.length) socket) := by
  rw [WireRequest.bytes, List.append_assoc] at hstream
  obtain ⟨parser, hdata, hloop⟩ := recvHeader_request request hbuff hsegments hstream hheader
  set stop := readStop buff_size socket 0 with hstop
  have htotal : stop ≤ socket.flatten.length := by
    rw [hstop, readStop]
    exact Nat.le_trans (Nat.min_le_left ..) (segmentEnd_le (Nat.zero_le _))
  have hbytes : request.bytes.length = request.header.length + request.body.length :=
    List.length_append
  have hsocket : (skip stop socket).flatten =
      (request.body ++ rest).drop (stop - request.header.length) := by
    rw [flatten_skip, hstream, List.drop_append, List.drop_eq_nil_of_le hheader, List.nil_append]
  have hn : stop - request.header.length ≤ (request.body ++ rest).length := by
    rw [hstream, List.length_append] at htotal
    omega
  -- counted from the start of the request
  have hmissing : stop - request.header.length < request.body.length ↔
      stop < request.bytes.length := by omega
  unfold recvRequest
  rw [hloop]
  by_cases hread : toInt stop ≤ 0 ∨ (stop - request.header.length : ℕ) = toInt buff_size
  · rw [if_pos hread, if_pos (.inl hread), Option.bind_none]
  · rw [if_neg hread, Option.bind_some]
    simp only [hdata, request.announced, recvBody_eq hn hsocket, hmissing, hread, false_or]
    rw [show request.body.length - (stop - request.header.length) = request.bytes.length - stop by
        omega, skip_skip hsegments,
      show stop + (request.bytes.length - stop) = max stop request.bytes.length by omega]
    split_ifs
    · rfl
    · rfl

/-! ## Successive calls -/

/-- Where the request of a number starts in the stream. -/
def start (requests : List (WireRequest lexicalCast)) (k : ℕ) : ℕ :=
  (stream (requests.take k)).length

/-- Each header arrives in one read. -/
def InOneRead (buff_size : ℕ) (segments : List (List UInt8))
    (requests : List (WireRequest lexicalCast)) : Prop :=
  ∀ k request, requests[k]? = some request →
    start requests k + request.header.length ≤ readStop buff_size segments (start requests k)

/-- **No bytes of the requests are lost**: each number of calls returns so many requests, in order,
and leaves the bytes of the other ones in the socket. -/
def KeepsAlive (buff_size : ℕ) (segments : List (List UInt8))
    (requests : List (WireRequest lexicalCast)) : Prop :=
  ∀ k ≤ requests.length, ∃ socket,
    recvRequests lexicalCast buff_size ((requests.take k).map (·.memory)) segments =
        some ((requests.take k).map WireRequest.message, socket) ∧
      socket.flatten = stream (requests.drop k)

variable {request : WireRequest lexicalCast} {requests : List (WireRequest lexicalCast)}
  {segments : List (List UInt8)}

@[simp] theorem stream_cons : stream (request :: requests) = request.bytes ++ stream requests :=
  List.flatMap_cons

@[simp] theorem start_zero : start requests 0 = 0 := rfl

@[simp] theorem start_succ (k : ℕ) :
    start (request :: requests) (k + 1) = request.bytes.length + start requests k := by
  rw [start, List.take_succ_cons, stream_cons, List.length_append, start]

theorem readStop_skip {n p : ℕ} (h : n ≤ segments.flatten.length) :
    n + readStop buff_size (skip n segments) p = readStop buff_size segments (n + p) := by
  rw [readStop, readStop, ← segmentEnd_skip h, ← Nat.add_min_add_left, Nat.add_assoc]

theorem fits_skip {n p q header : ℕ} (h : n ≤ segments.flatten.length) :
    Fits buff_size (skip n segments) p header q ↔
      Fits buff_size segments (n + p) header (n + q) := by
  unfold Fits
  rw [← readStop_skip h, Nat.add_sub_add_left, Nat.add_sub_add_left, Nat.add_le_add_iff_left,
    Nat.add_left_cancel_iff]

theorem inOneRead_cons (h : InOneRead buff_size segments (request :: requests))
    (hle : request.bytes.length ≤ segments.flatten.length) :
    request.header.length ≤ readStop buff_size segments 0 ∧
      InOneRead buff_size (skip request.bytes.length segments) requests := by
  constructor
  · simpa using h 0 request rfl
  · intro k r hr
    have hk := h (k + 1) r (by simpa using hr)
    rw [start_succ, ← readStop_skip hle] at hk
    omega

/-- The first call does what it should if the request fits. -/
theorem recvRequest_of_fits (hbuff : buff_size < 2 ^ 64)
    (hsegments : ∀ segment ∈ segments, segment ≠ [])
    (hstream : segments.flatten = stream (request :: requests))
    (hheader : request.header.length ≤ readStop buff_size segments 0)
    (hfits : Fits buff_size segments 0 request.header.length request.bytes.length) :
    recvRequest lexicalCast buff_size request.memory segments =
      some (request.message, skip request.bytes.length segments) := by
  obtain ⟨hstop, hread, hroom, hmissing⟩ := hfits
  rw [Nat.sub_zero] at hread hroom
  rw [recvRequest_eq request hbuff hsegments (hstream.trans stream_cons) hheader,
    Nat.max_eq_right hstop, if_neg]
  rintro ((h | h) | ⟨h, h'⟩)
  · omega
  · exact hroom h
  · omega

/-- **One request**: the first call returns it and leaves the others exactly if the read of its
header stops in it. -/
theorem recvRequest_iff (hbuff : buff_size < 2 ^ 64)
    (hsegments : ∀ segment ∈ segments, segment ≠ [])
    (hstream : segments.flatten = stream (request :: requests))
    (hheader : request.header.length ≤ readStop buff_size segments 0) :
    (∃ socket, recvRequest lexicalCast buff_size request.memory segments =
        some (request.message, socket) ∧ socket.flatten = stream requests) ↔
      Fits buff_size segments 0 request.header.length request.bytes.length := by
  constructor
  · rintro ⟨socket, hcall, hrest⟩
    have hle : readStop buff_size segments 0 ≤ segments.flatten.length :=
      Nat.le_trans (Nat.min_le_left ..) (segmentEnd_le (Nat.zero_le _))
    have hlen := congrArg List.length (hstream.trans stream_cons)
    rw [List.length_append] at hlen
    rw [recvRequest_eq request hbuff hsegments (hstream.trans stream_cons) hheader] at hcall
    split_ifs at hcall with hgives
    obtain ⟨-, rfl⟩ := Prod.mk.inj (Option.some.inj hcall)
    -- the socket has lost as much as was read, and that may be more than the request
    have hdrop := congrArg List.length hrest
    rw [flatten_skip, List.length_drop] at hdrop
    rw [not_or, not_or] at hgives
    obtain ⟨⟨hread, hroom⟩, hmissing⟩ := hgives
    refine ⟨by omega, ?_, ?_, ?_⟩
    · rw [Nat.sub_zero]
      exact Int.not_le.mp hread
    · rwa [Nat.sub_zero]
    · omega
  · intro hfits
    refine ⟨_, recvRequest_of_fits hbuff hsegments hstream hheader hfits, ?_⟩
    rw [flatten_skip, hstream, stream_cons, List.drop_left]

/-- Calls are the first one and the calls behind it. -/
theorem recvRequests_cons {memory : HttpParser} {memories : List HttpParser}
    {message : HttpMessage} {messages : List HttpMessage} :
    recvRequests lexicalCast buff_size (memory :: memories) socket =
        some (message :: messages, socket') ↔
      ∃ rest, recvRequest lexicalCast buff_size memory socket = some (message, rest) ∧
        recvRequests lexicalCast buff_size memories rest = some (messages, socket') := by
  simp only [recvRequests, Option.bind_eq_some_iff, Option.map_eq_some_iff, Prod.exists,
    Prod.mk.injEq, List.cons.injEq]
  constructor
  · rintro ⟨m, rest, hcall, ms, last, hcalls, ⟨rfl, rfl⟩, rfl⟩
    exact ⟨rest, hcall, hcalls⟩
  · rintro ⟨rest, hcall, hcalls⟩
    exact ⟨message, rest, hcall, messages, socket', hcalls, ⟨rfl, rfl⟩, rfl⟩

/-- The first of the requests, and the others behind it. -/
theorem keepsAlive_cons (hbuff : buff_size < 2 ^ 64)
    (hsegments : ∀ segment ∈ segments, segment ≠ [])
    (hstream : segments.flatten = stream (request :: requests))
    (hheader : request.header.length ≤ readStop buff_size segments 0) :
    KeepsAlive buff_size segments (request :: requests) ↔
      Fits buff_size segments 0 request.header.length request.bytes.length ∧
        KeepsAlive buff_size (skip request.bytes.length segments) requests := by
  have hcall := recvRequest_iff hbuff hsegments hstream hheader
  have hsocket := recvRequest_of_fits hbuff hsegments hstream hheader
  constructor
  · intro h
    have hgets : Fits buff_size segments 0 request.header.length request.bytes.length := by
      -- the first request alone
      obtain ⟨socket, hone, hrest⟩ := h 1 (by simp)
      obtain ⟨rest, hmessage, hnil⟩ := recvRequests_cons.mp hone
      obtain ⟨-, rfl⟩ := Prod.mk.inj (Option.some.inj hnil)
      exact hcall.mp ⟨rest, hmessage, hrest⟩
    refine ⟨hgets, fun k hk => ?_⟩
    obtain ⟨socket, hall, hrest⟩ := h (k + 1) (Nat.succ_le_succ hk)
    obtain ⟨rest, hmessage, hcalls⟩ := recvRequests_cons.mp hall
    rw [hsocket hgets] at hmessage
    obtain ⟨-, rfl⟩ := Prod.mk.inj (Option.some.inj hmessage)
    exact ⟨socket, hcalls, hrest⟩
  · rintro ⟨hgets, h⟩ k hk
    cases k with
    | zero => exact ⟨segments, rfl, hstream⟩
    | succ k =>
      obtain ⟨socket, hcalls, hrest⟩ := h k (Nat.le_of_succ_le_succ hk)
      exact ⟨socket, recvRequests_cons.mpr ⟨_, hsocket hgets, hcalls⟩, hrest⟩

/-- **Successive calls** get the requests of a stream and lose none of its bytes exactly if the
read in which each header arrives stops in its request. -/
theorem keepAlive_iff (hbuff : buff_size < 2 ^ 64) (hsegments : ∀ segment ∈ segments, segment ≠ [])
    (hstream : segments.flatten = stream requests)
    (hheader : InOneRead buff_size segments requests) :
    KeepsAlive buff_size segments requests ↔ ∀ k request, requests[k]? = some request →
      Fits buff_size segments (start requests k) request.header.length
        (start requests (k + 1)) := by
  induction requests generalizing segments with
  | nil =>
    refine iff_of_true (fun k hk => ⟨segments, ?_⟩) (fun k request hk => by cases hk)
    obtain rfl := Nat.le_zero.mp hk
    exact ⟨rfl, hstream⟩
  | cons request requests ih =>
    have hle : request.bytes.length ≤ segments.flatten.length := by
      rw [hstream, stream_cons, List.length_append]
      exact Nat.le_add_right ..
    obtain ⟨hfirst, hothers⟩ := inOneRead_cons hheader hle
    have hskip := ih (ne_nil_of_mem_skip hsegments)
      (by rw [flatten_skip, hstream, stream_cons, List.drop_left]) hothers
    rw [keepsAlive_cons hbuff hsegments hstream hfirst, hskip]
    simp only [fits_skip hle]
    constructor
    · rintro ⟨hgets, h⟩ k r hk
      cases k with
      | zero =>
        obtain rfl := Option.some.inj hk
        simpa using hgets
      | succ k => simpa using h k r hk
    · intro h
      exact ⟨by simpa using h 0 request rfl, fun k r hk => by simpa using h (k + 1) r hk⟩

/-- A request without a body. -/
def getRequest : WireRequest decimal where
  memory := .zero
  header := bytes "GET / HTTP/1.1\r\n\r\n"
  body := []
  data := {}
  parsed := by decide
  announced := by decide

/-- A request with a body. -/
def postRequest : WireRequest decimal where
  memory := .zero
  header := bytes "POST / HTTP/1.1\r\nContent-Length: 2\r\n\r\n"
  body := bytes "ok"
  data := { method := .post, headers := [(bytes "Content-Length", bytes "2")] }
  parsed := by decide
  announced := by decide

theorem inOneRead_pair {first second : WireRequest lexicalCast}
    (hfirst : first.header.length ≤ readStop buff_size segments 0)
    (hsecond : first.bytes.length + second.header.length ≤
      readStop buff_size segments first.bytes.length) :
    InOneRead buff_size segments [first, second] := by
  intro k request hk
  match k, hk with
  | 0, hk =>
    obtain rfl := Option.some.inj hk
    simpa using hfirst
  | 1, hk =>
    obtain rfl := Option.some.inj hk
    simpa using hsecond

/-- A body in two reads, the second one with the next header. -/
theorem keepAlive_iff_post :
    KeepsAlive 4096 [postRequest.header ++ bytes "o", bytes "k" ++ getRequest.header]
        [postRequest, getRequest] ↔
      ∀ k request, [postRequest, getRequest][k]? = some request →
        Fits 4096 [postRequest.header ++ bytes "o", bytes "k" ++ getRequest.header]
          (start [postRequest, getRequest] k) request.header.length
          (start [postRequest, getRequest] (k + 1)) :=
  keepAlive_iff (by decide) (by decide) (by decide)
    (inOneRead_pair (by decide) (by decide))

/-- A request that arrives together with the one before it is lost. -/
theorem pipelined_request_lost :
    [getRequest.bytes ++ getRequest.bytes].flatten = stream [getRequest, getRequest] ∧
      InOneRead 4096 [getRequest.bytes ++ getRequest.bytes] [getRequest, getRequest] ∧
      ¬ KeepsAlive 4096 [getRequest.bytes ++ getRequest.bytes] [getRequest, getRequest] := by
  refine ⟨by decide, inOneRead_pair (by decide) (by decide), fun h => ?_⟩
  obtain ⟨socket, hcalls, -⟩ := h 2 (Nat.le_refl 2)
  have hnone : recvRequests decimal 4096 [.zero, .zero] [getRequest.bytes ++ getRequest.bytes] =
      none := by
    rw [← Option.isNone_iff_eq_none]
    decide +kernel
  exact Option.some_ne_none _ (hcalls.symm.trans hnone)

end Http

end Sylar
