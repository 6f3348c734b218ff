import Mathlib.Tactic.Ring
import Sylar.Foundation.Automaton
import Sylar.Http.Table

/-!
# The HTTP request parser

The machine runs over the bytes of a buffer. Its actions keep offsets into the buffer and hand
ranges of it to callbacks, which fill in the request. The parser is fed by the loop of
`recvRequest`: after each read it starts at the front of the buffer, in the state it was left in.

Strings are lists of bytes; what a pointer points to is the rest of the buffer. A failed assertion
and an exception lead nowhere.

## Main definitions

* `HttpMethod`, `HttpRequest`, `HttpParser`, `HttpRequestParser`: the data of the parser
* `act`, `exec`, `httpParserExecute`: the actions, the machine, and a call of it
* `HttpRequestParser.execute`, `recvLoop`: the parser and the loop that feeds it
-/

namespace Sylar

open Foundation

namespace Http

/-! ## Requests -/

def bytes (s : String) : List UInt8 := s.toList.map fun c => UInt8.ofNat c.toNat

inductive HttpMethod
  | delete | get | head | post | put
  | connect | options | trace
  | copy | lock | mkcol | move | propfind | proppatch | search | unlock | bind | rebind | unbind
  | acl
  | report | mkactivity | checkout | merge
  | msearch | notify | subscribe | unsubscribe
  | patch | purge
  | mkcalendar
  | link | unlink
  | source
  | invalid_method
  deriving DecidableEq, Repr

def httpMethodMap : List (HttpMethod × String) := [
  (.delete, "DELETE"), (.get, "GET"), (.head, "HEAD"), (.post, "POST"), (.put, "PUT"),
  (.connect, "CONNECT"), (.options, "OPTIONS"), (.trace, "TRACE"),
  (.copy, "COPY"), (.lock, "LOCK"), (.mkcol, "MKCOL"), (.move, "MOVE"), (.propfind, "PROPFIND"),
  (.proppatch, "PROPPATCH"), (.search, "SEARCH"), (.unlock, "UNLOCK"), (.bind, "BIND"),
  (.rebind, "REBIND"), (.unbind, "UNBIND"), (.acl, "ACL"),
  (.report, "REPORT"), (.mkactivity, "MKACTIVITY"), (.checkout, "CHECKOUT"), (.merge, "MERGE"),
  (.msearch, "M-SEARCH"), (.notify, "NOTIFY"), (.subscribe, "SUBSCRIBE"),
  (.unsubscribe, "UNSUBSCRIBE"),
  (.patch, "PATCH"), (.purge, "PURGE"),
  (.mkcalendar, "MKCALENDAR"),
  (.link, "LINK"), (.unlink, "UNLINK"),
  (.source, "SOURCE")]

/-- `strncmp(s, t, n) == 0`; a string ends with a zero byte. -/
def strncmp (s t : List UInt8) : ℕ → Bool
  | 0 => true
  | n + 1 => s.headD 0 = t.headD 0 && (s.headD 0 = 0 || strncmp s.tail t.tail n)

def charsToHttpMethod (m : List UInt8) : HttpMethod :=
  ((httpMethodMap.find? fun x => strncmp (bytes x.2) m (bytes x.2).length).map (·.1)).getD
    .invalid_method

def toLower (c : UInt8) : UInt8 := if 65 ≤ c ∧ c ≤ 90 then c + 32 else c

/-- `strcasecmp(lhs, rhs) < 0`. -/
def caseInsensitiveLess : List UInt8 → List UInt8 → Bool
  | [], rhs => rhs.headD 0 ≠ 0
  | a :: lhs, rhs =>
    -- `strcasecmp` stops at a null byte
    if toLower a = toLower (rhs.headD 0) then a ≠ 0 && caseInsensitiveLess lhs rhs.tail
    else toLower a < toLower (rhs.headD 0)

/-- `m_headers[key] = val`, in the order of the map. -/
def setHeader (key val : List UInt8) :
    List (List UInt8 × List UInt8) → List (List UInt8 × List UInt8)
  | [] => [(key, val)]
  | (k, v) :: rest =>
    if caseInsensitiveLess k key then (k, v) :: setHeader key val rest
    else if caseInsensitiveLess key k then (key, val) :: (k, v) :: rest
    -- the key that is there stays, and gets the new value
    else (k, val) :: rest

structure HttpRequest where
  method : HttpMethod := .get
  version : UInt8 := 0x11
  path : List UInt8 := bytes "/"
  query : List UInt8 := []
  fragment : List UInt8 := []
  headers : List (List UInt8 × List UInt8) := []
  deriving DecidableEq, Repr

/-! ## The parser -/

/-- `http_parser`. -/
structure HttpParser where
  cs : ℕ
  body_start : ℕ
  content_len : Int
  nread : ℕ
  mark : ℕ
  field_start : ℕ
  field_len : ℕ
  query_start : ℕ
  xml_sent : Bool
  json_sent : Bool
  uri_relaxed : Bool
  deriving DecidableEq, Repr

/-- `http_parser_init`, on the memory of the parser. -/
def HttpParser.init (parser : HttpParser) : HttpParser :=
  -- neither `query_start` nor `uri_relaxed` is set
  { parser with
    cs := 1
    body_start := 0
    content_len := 0
    mark := 0
    nread := 0
    field_len := 0
    field_start := 0
    xml_sent := false
    json_sent := false }

def HttpParser.hasError (parser : HttpParser) : Bool := parser.cs = 0

def HttpParser.isFinished (parser : HttpParser) : Bool := 348 ≤ parser.cs

def HttpParser.finish (parser : HttpParser) : Int :=
  if parser.hasError then -1 else if parser.isFinished then 1 else 0

structure HttpRequestParser where
  parser : HttpParser
  data : HttpRequest := {}
  error : ℕ := 0
  deriving DecidableEq, Repr

/-- The constructor, on the memory of the parser. -/
def HttpRequestParser.new (memory : HttpParser) : HttpRequestParser where
  parser := memory.init

def HttpRequestParser.isFinished (s : HttpRequestParser) : Bool := s.parser.finish ≠ 0

def HttpRequestParser.hasError (s : HttpRequestParser) : Bool := s.error ≠ 0 || s.parser.hasError

/-! ## Callbacks -/

/-- `std::string(at, length)`, where the buffer goes so far. -/
def str (at' : List UInt8) (length : ℕ) : Option (List UInt8) :=
  if length ≤ at'.length then some (at'.take length) else none

def onReqeustMethod (s : HttpRequestParser) (at' : List UInt8) : HttpRequestParser :=
  let m := charsToHttpMethod at'
  -- the text is not cut to the length: the rest of the buffer follows it
  if m = .invalid_method then { s with error := 1000 }
  else { s with data := { s.data with method := m } }

def onRequestFragment (s : HttpRequestParser) (at' : List UInt8) (length : ℕ) :
    Option HttpRequestParser :=
  (str at' length).map fun v => { s with data := { s.data with fragment := v } }

def onRequestPath (s : HttpRequestParser) (at' : List UInt8) (length : ℕ) :
    Option HttpRequestParser :=
  (str at' length).map fun v => { s with data := { s.data with path := v } }

def onRequestQueryString (s : HttpRequestParser) (at' : List UInt8) (length : ℕ) :
    Option HttpRequestParser :=
  (str at' length).map fun v => { s with data := { s.data with query := v } }

/-- The version that the text stands for. -/
def versionOf (at' : List UInt8) (length : ℕ) : Option UInt8 :=
  if strncmp at' (bytes "HTTP/1.1") length then some 0x11
  else if strncmp at' (bytes "HTTP/1.0") length then some 0x10
  else none

def onRequestHttpVersion (s : HttpRequestParser) (at' : List UInt8) (length : ℕ) :
    HttpRequestParser :=
  match versionOf at' length with
  | some v => { s with data := { s.data with version := v } }
  | none => { s with error := 1001 }

def onRequestHttpField (s : HttpRequestParser) (field : List UInt8) (flen : ℕ)
    (value : List UInt8) (vlen : ℕ) : Option HttpRequestParser :=
  -- a field without a name is logged and dropped
  if flen = 0 then some s
  else
    (str field flen).bind fun key => (str value vlen).map fun val =>
      { s with data := { s.data with headers := setHeader key val s.data.headers } }

/-! ## The machine -/

/-- The edge for a byte. -/
def next (uri_relaxed : Bool) (cs : ℕ) (c : UInt8) : Option (ℕ × List Action) :=
  ((table.getD cs []).find? fun e =>
    decide (e.lo ≤ c.toNat) && decide (c.toNat ≤ e.hi) && (!e.relaxed || uri_relaxed)).map
      fun e => (e.target, e.actions)

/-- `LEN`, the difference of two offsets as a `size_t`. -/
def len (offset p : ℕ) : ℕ := if offset ≤ p then p - offset else 2 ^ 64 - (offset - p)

def HttpRequestParser.update (s : HttpRequestParser) (f : HttpParser → HttpParser) :
    HttpRequestParser :=
  { s with parser := f s.parser }

/-- An action at the byte `p` of the buffer. -/
def act (buffer : List UInt8) (p : ℕ) (s : HttpRequestParser) : Action → Option HttpRequestParser
  | .mark | .start_value => some (s.update ({ · with mark := p }))
  | .start_field => some (s.update ({ · with field_start := p }))
  | .write_field => some (s.update fun x => { x with field_len := len x.field_start p })
  | .write_value =>
    onRequestHttpField s (buffer.drop s.parser.field_start) s.parser.field_len
      (buffer.drop s.parser.mark) (len s.parser.mark p)
  | .request_method => some (onReqeustMethod s (buffer.drop s.parser.mark))
  | .request_uri => some s
  | .fragment => onRequestFragment s (buffer.drop s.parser.mark) (len s.parser.mark p)
  | .start_query => some (s.update ({ · with query_start := p }))
  | .query_string =>
    onRequestQueryString s (buffer.drop s.parser.query_start) (len s.parser.query_start p)
  | .http_version =>
    some (onRequestHttpVersion s (buffer.drop s.parser.mark) (len s.parser.mark p))
  | .request_path => onRequestPath s (buffer.drop s.parser.mark) (len s.parser.mark p)
  | .done => some (s.update fun x =>
    -- a document sent in place of a header is the body
    if x.xml_sent || x.json_sent then
      { x with body_start := x.mark, content_len := p - x.mark + 1 }
    else { x with body_start := p + 1 })
  | .xml => some (s.update ({ · with xml_sent := true }))
  | .json => some (s.update ({ · with json_sent := true }))

/-- The machine on the rest of the buffer, from the byte `p`: the state and the byte it stops at. -/
def exec (buffer : List UInt8) : HttpRequestParser → ℕ → ℕ → List UInt8 →
    Option (HttpRequestParser × ℕ × ℕ)
  | s, cs, p, [] => some (s, cs, p)
  | s, cs, p, c :: rest =>
    match next s.parser.uri_relaxed cs c with
    -- the state of errors, where the byte was not expected
    | none => some (s, 0, p)
    | some (cs', actions) =>
      (actions.foldlM (act buffer p) s).bind fun s' =>
        -- `done` leaves the loop
        if .done ∈ actions then some (s', cs', p + 1) else exec buffer s' cs' (p + 1) rest

/-- The assertions at the end of `http_parser_execute`. -/
def HttpParser.inBounds (parser : HttpParser) (len : ℕ) : Prop :=
  parser.nread ≤ len ∧ parser.body_start ≤ len ∧ parser.mark < len ∧ parser.field_len ≤ len ∧
    parser.field_start < len

instance (parser : HttpParser) (len : ℕ) : Decidable (parser.inBounds len) := by
  unfold HttpParser.inBounds
  infer_instance

/-- `http_parser_execute`, from the front of the buffer. -/
def httpParserExecute (s : HttpRequestParser) (buffer : List UInt8) :
    Option (HttpRequestParser × ℕ) :=
  -- no byte: the parser is not called
  if buffer = [] then some (s, 0)
  else
    let s := s.update ({ · with nread := 0, mark := 0, field_len := 0, field_start := 0 })
    (exec buffer s s.parser.cs 0 buffer).bind fun (s, cs, p) =>
      -- an error stays
      let s := s.update fun x => if x.hasError then x else { x with cs := cs }
      let s := s.update fun x => { x with nread := x.nread + p }
      -- the assertions at the end
      if s.parser.inBounds buffer.length then some (s, s.parser.nread) else none

/-- `HttpRequestParser::execute`: how much was parsed, and the rest of the data. -/
def HttpRequestParser.execute (s : HttpRequestParser) (data : List UInt8) :
    Option (HttpRequestParser × ℕ × List UInt8) :=
  (httpParserExecute s data).map fun (s, offset) => (s, offset, data.drop offset)

/-- The conversion to `int`. -/
def toInt (n : ℕ) : Int := Int.bmod n (2 ^ 32)

/-- The loop of `recvRequest` on the reads of the socket: the parser when it has finished, and the
data behind the header. It gives up when a read fails, on an error, and on a full buffer. -/
def recvLoop (buff_size : ℕ) : HttpRequestParser → List UInt8 → List (List UInt8) →
    Option (HttpRequestParser × List UInt8)
  | _, _, [] => none
  | s, data, read :: reads =>
    if read = [] then none
    else
      (s.execute (data ++ read)).bind fun (s, _, data) =>
        if s.hasError then none
        -- the buffer is full of what the parser has not taken
        else if data.length = toInt buff_size then none
        else if s.isFinished then some (s, data)
        else recvLoop buff_size s data reads

end Http

end Sylar
