import Sylar.Foundation.Transition
import Sylar.Http.Body
import Sylar.Http.Client

/-!
# Calls that receive a message

`recvRequest` and `recvResponse` as machines, whose steps are the reads from the socket: a step
takes what a read gives and goes on to the next read. Both have the loop that reads a header and
the body of an announced length; a response may also come in chunks.

A store past the end of a buffer and an exception lead nowhere; so does `append` with a negative
length, which throws.

## Main definitions

* `MessageParser`, `requestParser`, `responseParser`: what a call uses of its parser
* `Call`, `Call.step`: where a call is, and what it does with a read
* `requestCall`, `responseCall`: the two machines
-/

namespace Sylar

open Foundation

namespace Http

/-! ## The parsers -/

/-- What a call uses of its parser. -/
structure MessageParser (σ : Type) where
  execute : σ → List UInt8 → Option (σ × ℕ × List UInt8)
  executeChunk : σ → List UInt8 → Option (σ × ℕ × List UInt8)
  hasError : σ → Bool
  isFinished : σ → Bool
  getContentLength : σ → UInt64
  chunked : σ → Bool
  content_len : σ → Int
  chunks_done : σ → Bool

/-- The parser of a request, which never comes in chunks. -/
def requestParser (lexicalCast : List UInt8 → Option UInt64) : MessageParser HttpRequestParser where
  execute := HttpRequestParser.execute
  executeChunk _ _ := none
  hasError := HttpRequestParser.hasError
  isFinished := HttpRequestParser.isFinished
  getContentLength s := s.data.getContentLength lexicalCast
  chunked _ := false
  content_len _ := 0
  chunks_done _ := true

def responseParser (lexicalCast : List UInt8 → Option UInt64) :
    MessageParser HttpResponseParser where
  execute s data := s.execute data false
  executeChunk s data := s.execute data true
  hasError := HttpResponseParser.hasError
  isFinished := HttpResponseParser.isFinished
  getContentLength := HttpResponseParser.getContentLength lexicalCast
  chunked s := s.parser.chunked
  content_len s := s.parser.content_len
  chunks_done s := s.parser.chunks_done

/-! ## Calls -/

/-- What a read gives: bytes, of which there are none at the end of the stream, or -1. -/
inductive ReadResult
  | got (d : List UInt8)
  | failed
  deriving DecidableEq, Repr

/-- The read that a call comes to next. -/
inductive Point
  /-- The read of the loop for the header. -/
  | header
  /-- The read of the loop for the header of a chunk. -/
  | chunk
  /-- A read of the bytes that are missing of a chunk. -/
  | data (left : Int)
  /-- A read of `readFixSize`, which was asked for a length. -/
  | body (length left : ℕ)
  /-- The connection is closed. -/
  | closed
  /-- The message is returned. -/
  | returned
  deriving DecidableEq, Repr

/-- The state of a call: where it is, its parser, the data in its buffer, how many bytes the parser
has taken of the header, and the body. -/
structure Call (σ : Type) where
  point : Point
  parser : σ
  data : List UInt8
  header : ℕ
  body : List UInt8
  deriving DecidableEq, Repr

namespace Call

variable {σ : Type}

/-- The start of a call. -/
def start (parser : σ) : Call σ where
  point := .header
  parser := parser
  data := []
  header := 0
  body := []

/-- `close`, and a null pointer. -/
def close (s : Call σ) : Call σ := { s with point := .closed }

/-- The end of `recvRequest` and `recvResponse`. -/
def finish (s : Call σ) : Call σ := { s with point := .returned }

/-- The end of `readFixSize`, which returns the length as an `int`. -/
def finishBody (length : ℕ) (s : Call σ) : Call σ :=
  if toInt length ≤ 0 then s.close else s.finish

/-- The body of an announced length: the string, and what goes into it of the buffer. -/
def startBody (length : Int) (s : Call σ) : Option (Call σ) :=
  if 0 < length then
    let n := if s.data.length ≤ length then s.data.length else length.toNat
    -- `resize`, and the rest of the buffer in front
    (storeAt (List.replicate length.toNat 0) 0 (s.data.take n)).map fun body =>
      let left := length - s.data.length
      if 0 < left then { s with body := body, point := .body left.toNat left.toNat }
      else { s with body := body, point := .returned }
  else some s.finish

/-- The next chunk, or the end of the body. -/
def nextChunk (p : MessageParser σ) (s : Call σ) : Call σ :=
  if p.chunks_done s.parser then s.finish else { s with point := .chunk }

/-- A chunk whose header has been taken, with the line end behind the chunk taken off the data. -/
def startChunk (p : MessageParser σ) (s : Call σ) : Option (Call σ) :=
  -- the two bytes of a line end are counted off, also where they were not received
  let len : Int := s.data.length - 2
  let n := p.content_len s.parser
  if n ≤ len then
    -- `append` takes it for a huge length
    if n < 0 then none
    else
      -- the next chunk may be in the buffer already
      some (nextChunk p { s with
        body := s.body ++ s.data.take n.toNat
        data := (s.data.take len.toNat).drop n.toNat })
  else if len < 0 then none
  else
    let left := n - len
    let s := { s with body := s.body ++ s.data.take len.toNat, data := [] }
    some (if 0 < left then { s with point := .data left } else nextChunk p s)

/-- The header has been taken. -/
def behindHeader (p : MessageParser σ) (s : Call σ) : Option (Call σ) :=
  if p.chunked s.parser then some { s with point := .chunk }
  else s.startBody (toInt64 (p.getContentLength s.parser))

/-- What both loops do with the result of the parser; `next` is what follows when it has
finished. -/
def parsed (p : MessageParser σ) (buff_size : ℕ) (next : Call σ → Option (Call σ)) (s : Call σ) :
    Option (Call σ) :=
  if p.hasError s.parser then some s.close
  else if s.data.length = toInt buff_size then some s.close
  else if p.isFinished s.parser then next s
  else some s

/-- How many bytes the next read asks for. -/
def room (buff_size : ℕ) (s : Call σ) : ℕ :=
  match s.point with
  | .header | .chunk => buff_size - s.data.length
  -- the bytes go to the front of the buffer
  | .data left => min (Streams.toSize (min left (toInt buff_size))) buff_size
  | .body _ left => left
  | .closed | .returned => 0

/-- A read that gives bytes. -/
def receive (p : MessageParser σ) (buff_size : ℕ) (s : Call σ) (d : List UInt8) :
    Option (Call σ) :=
  match s.point with
  | .header =>
    if d = [] then some s.close
    else
      (p.execute s.parser (s.data ++ d)).bind fun (parser, nparser, data) =>
        parsed p buff_size (behindHeader p)
          { s with parser := parser, data := data, header := s.header + nparser }
  | .chunk =>
    if d = [] then some s.close
    else
      (p.executeChunk s.parser (s.data ++ d)).bind fun (parser, _, data) =>
        parsed p buff_size (startChunk p) { s with parser := parser, data := data }
  | .data left =>
    if d = [] then some s.close
    else
      let s := { s with body := s.body ++ d }
      let left := left - d.length
      some (if 0 < left then { s with point := .data left } else nextChunk p s)
  | .body length left =>
    -- `readFixSize` goes on at the end of the stream
    if d = [] then some s
    else if left ≤ s.body.length then
      (storeAt s.body (s.body.length - left) d).map fun body =>
        let s := { s with body := body }
        let left := left - d.length
        if 0 < left then { s with point := .body length left } else finishBody length s
    else none
  | .closed | .returned => none

/-- A read that fails. -/
def fail (s : Call σ) : Option (Call σ) :=
  match s.point with
  | .header | .chunk | .data _ => some s.close
  -- the -1 is added to the offset, and taken off what is left
  | .body length left => some { s with point := .body length (left + 1) }
  | .closed | .returned => none

/-- A step of a call: a read gives no more than it is asked for, and its length is an `int`. -/
def step (p : MessageParser σ) (buff_size : ℕ) (s : Call σ) : ReadResult → Option (Call σ)
  | .got d =>
    if d.length ≤ s.room buff_size ∧ d.length < 2 ^ 31 then s.receive p buff_size d else none
  | .failed => s.fail

def machine (p : MessageParser σ) (buff_size : ℕ) : Machine (Call σ) ReadResult where
  step := step p buff_size

end Call

/-- The limits of the configuration. -/
structure Limits where
  http_request_buffer_size : UInt64 := 4 * 1024
  http_request_max_body_size : UInt64 := 64 * 1024 * 1024
  http_response_buffer_size : UInt64 := 4 * 1024
  http_response_max_body_size : UInt64 := 64 * 1024 * 1024

/-- `HttpSession::recvRequest`. -/
def requestCall (lexicalCast : List UInt8 → Option UInt64) (limits : Limits) :
    Machine (Call HttpRequestParser) ReadResult :=
  Call.machine (requestParser lexicalCast) limits.http_request_buffer_size.toNat

/-- `HttpConnection::recvResponse`. -/
def responseCall (lexicalCast : List UInt8 → Option UInt64) (limits : Limits) :
    Machine (Call HttpResponseParser) ReadResult :=
  Call.machine (responseParser lexicalCast) limits.http_response_buffer_size.toNat

end Http

end Sylar
