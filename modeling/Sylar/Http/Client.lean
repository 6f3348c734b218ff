import Sylar.Http.ClientTable
import Sylar.Http.Response

/-!
# The HTTP response parser

The machine of a response runs over the bytes of a buffer like that of a request, with its own
table. It also takes the header of a chunk, and then keeps the size of the chunk; a call for a
chunk starts the machine anew.

A failed assertion and an exception lead nowhere, and so does a failed check: the data is then
moved by -1.

## Main definitions

* `strtol`: the number at the front of a text
* `HttpclientParser`, `HttpResponseParser`: the data of the parser
* `HttpResponseParser.act`, `HttpResponseParser.exec`, `httpclientParserExecute`: the actions, the
  machine, and a call of it
* `HttpResponseParser.execute`: the parser
-/

namespace Sylar

namespace Http

/-! ## Numbers -/

def isSpace (c : UInt8) : Bool := c = 32 || (9 ≤ c && c ≤ 13)

/-- The digit that a letter stands for, in bases up to 16. -/
def digitValue (base : ℕ) (c : UInt8) : Option ℕ :=
  let d :=
    if 48 ≤ c ∧ c ≤ 57 then c.toNat - 48
    else if 65 ≤ c ∧ c ≤ 70 then c.toNat - 55
    else if 97 ≤ c ∧ c ≤ 102 then c.toNat - 87
    else base
  if d < base then some d else none

/-- The digits at the front of a text, as a number. -/
def digitsValue (base : ℕ) : ℕ → List UInt8 → ℕ
  | n, [] => n
  | n, c :: text =>
    match digitValue base c with
    | some d => digitsValue base (base * n + d) text
    | none => n

/-- The text behind `0x`, if a digit follows. -/
def dropPrefix (base : ℕ) (text : List UInt8) : List UInt8 :=
  -- the prefix counts only when a digit follows it
  if base = 16 ∧ text.head? = some 48 ∧ (text[1]? = some 120 ∨ text[1]? = some 88) ∧
      (text[2]?.bind (digitValue 16)).isSome then text.drop 2
  else text

/-- `strtol(text, NULL, base)`, which does not leave the range of a `long`. -/
def strtol (base : ℕ) (text : List UInt8) : Int :=
  let text := text.dropWhile isSpace
  let negative := text.head? = some 45
  let text := if text.head? = some 43 ∨ text.head? = some 45 then text.drop 1 else text
  let n := digitsValue base 0 (dropPrefix base text)
  -- the result is clamped to the range of `long`
  if negative then -(min n (2 ^ 63) : ℕ) else (min n (2 ^ 63 - 1) : ℕ)

/-- The conversion of a `long` to `int`. -/
def longToInt (n : Int) : Int := n.bmod (2 ^ 32)

def atoi (text : List UInt8) : Int := longToInt (strtol 10 text)

/-! ## The parser -/

/-- `httpclient_parser`. -/
structure HttpclientParser where
  cs : ℕ
  body_start : ℕ
  content_len : Int
  status : Int
  chunked : Bool
  chunks_done : Bool
  close : Bool
  nread : ℕ
  mark : ℕ
  field_start : ℕ
  field_len : ℕ
  deriving DecidableEq, Repr

/-- `httpclient_parser_init`, on the memory of the parser. -/
def HttpclientParser.init (parser : HttpclientParser) : HttpclientParser :=
  { parser with
    cs := 1
    body_start := 0
    content_len := -1
    chunked := false
    chunks_done := false
    mark := 0
    nread := 0
    field_len := 0
    field_start := 0
    close := false }

def HttpclientParser.hasError (parser : HttpclientParser) : Bool := parser.cs = 0

/-- Only the first of the final states counts. -/
def HttpclientParser.isFinished (parser : HttpclientParser) : Bool := parser.cs = 120

def HttpclientParser.finish (parser : HttpclientParser) : Int :=
  if parser.hasError then -1 else if parser.isFinished then 1 else 0

structure HttpResponseParser where
  parser : HttpclientParser
  data : HttpResponse := {}
  error : ℕ := 0
  deriving DecidableEq, Repr

namespace HttpResponseParser

/-- The constructor, on the memory of the parser. -/
def new (memory : HttpclientParser) : HttpResponseParser where
  parser := memory.init

def isFinished (s : HttpResponseParser) : Bool := s.parser.finish ≠ 0

def hasError (s : HttpResponseParser) : Bool := s.error ≠ 0 || s.parser.hasError

def update (s : HttpResponseParser) (f : HttpclientParser → HttpclientParser) :
    HttpResponseParser :=
  { s with parser := f s.parser }

/-! ## Callbacks -/

def onResponseReason (s : HttpResponseParser) (at' : List UInt8) (length : ℕ) :
    Option HttpResponseParser :=
  (str at' length).map fun v => { s with data := { s.data with reason := v } }

/-- The status is the number of the text, not only one of the table. -/
def onResponseStatus (s : HttpResponseParser) (at' : List UInt8) : HttpResponseParser :=
  { s with data := { s.data with status := .ofInt (atoi at') } }

def onResponseVersion (s : HttpResponseParser) (at' : List UInt8) (length : ℕ) :
    HttpResponseParser :=
  match versionOf at' length with
  | some v => { s with data := { s.data with version := v } }
  | none => { s with error := 1001 }

def onResponseHttpField (s : HttpResponseParser) (field : List UInt8) (flen : ℕ)
    (value : List UInt8) (vlen : ℕ) : Option HttpResponseParser :=
  if flen = 0 then some s
  else
    (str field flen).bind fun key => (str value vlen).map fun val =>
      { s with data := { s.data with headers := setHeader key val s.data.headers } }

/-! ## The machine -/

/-- The edge for a byte. -/
def next (cs : ℕ) (c : UInt8) : Option (ℕ × List ClientAction) :=
  ((clientTable.getD cs []).find? fun e =>
    decide (e.lo ≤ c.toNat) && decide (c.toNat ≤ e.hi)).map fun e => (e.target, e.actions)

/-- An action at the byte `p` of the buffer. -/
def act (buffer : List UInt8) (p : ℕ) (s : HttpResponseParser) :
    ClientAction → Option HttpResponseParser
  | .mark | .start_value => some (s.update ({ · with mark := p }))
  | .start_field => some (s.update ({ · with field_start := p }))
  | .write_field => some (s.update fun x => { x with field_len := len x.field_start p })
  | .write_content_len =>
    some (s.update fun x => { x with content_len := longToInt (strtol 10 (buffer.drop x.mark)) })
  | .write_connection_close => some (s.update ({ · with close := true }))
  | .write_value =>
    s.onResponseHttpField (buffer.drop s.parser.field_start) s.parser.field_len
      (buffer.drop s.parser.mark) (len s.parser.mark p)
  | .reason_phrase => s.onResponseReason (buffer.drop s.parser.mark) (len s.parser.mark p)
  | .status_code =>
    let s := s.update fun x => { x with status := longToInt (strtol 10 (buffer.drop x.mark)) }
    some (s.onResponseStatus (buffer.drop s.parser.mark))
  | .http_version =>
    some (s.onResponseVersion (buffer.drop s.parser.mark) (len s.parser.mark p))
  | .chunk_size =>
    -- the callbacks of a chunk and of the last one do nothing
    some (s.update fun x =>
      let n := longToInt (strtol 16 (buffer.drop x.mark))
      { x with chunked := true, content_len := n, chunks_done := n ≤ 0 })
  | .trans_chunked => some (s.update ({ · with chunked := true }))
  | .done => some (s.update ({ · with body_start := p + 1 }))

/-- The machine on the rest of the buffer, from the byte `p`: the state and the byte it stops at. -/
def exec (buffer : List UInt8) : HttpResponseParser → ℕ → ℕ → List UInt8 →
    Option (HttpResponseParser × ℕ × ℕ)
  | s, cs, p, [] => some (s, cs, p)
  | s, cs, p, c :: rest =>
    match next cs c with
    | none => some (s, 0, p)
    | some (cs', actions) =>
      (actions.foldlM (act buffer p) s).bind fun s' =>
        -- `done` leaves the loop
        if .done ∈ actions then some (s', cs', p + 1) else exec buffer s' cs' (p + 1) rest

end HttpResponseParser

/-- The assertions and checks at the end of `httpclient_parser_execute`. -/
def HttpclientParser.inBounds (parser : HttpclientParser) (len : ℕ) : Prop :=
  parser.nread ≤ len ∧ parser.body_start ≤ len ∧ parser.mark < len ∧ parser.field_len ≤ len ∧
    parser.field_start < len

instance (parser : HttpclientParser) (len : ℕ) : Decidable (parser.inBounds len) := by
  unfold HttpclientParser.inBounds
  infer_instance

/-- `httpclient_parser_execute`, from the front of the buffer. -/
def httpclientParserExecute (s : HttpResponseParser) (buffer : List UInt8) :
    Option (HttpResponseParser × ℕ) :=
  let s := s.update ({ · with nread := 0, mark := 0, field_len := 0, field_start := 0 })
  (s.exec buffer s.parser.cs 0 buffer).bind fun (s, cs, p) =>
    -- unlike the parser of requests, an error does not stay
    let s := s.update fun x => { x with cs := cs, nread := x.nread + p }
    if s.parser.inBounds buffer.length then some (s, s.parser.nread) else none

namespace HttpResponseParser

/-- `HttpResponseParser::execute`: how much was parsed, and the rest of the data. -/
def execute (s : HttpResponseParser) (data : List UInt8) (chunck : Bool) :
    Option (HttpResponseParser × ℕ × List UInt8) :=
  -- for a chunk the machine starts anew, with the callbacks and data it has
  let s := if chunck then s.update HttpclientParser.init else s
  (httpclientParserExecute s data).map fun (s, offset) => (s, offset, data.drop offset)

/-- The length is 0 when the header is missing or no number. -/
def getContentLength (lexicalCast : List UInt8 → Option UInt64) (s : HttpResponseParser) :
    UInt64 :=
  ((findHeader (bytes "content-length") s.data.headers).bind lexicalCast).getD 0

end HttpResponseParser

end Http

end Sylar
