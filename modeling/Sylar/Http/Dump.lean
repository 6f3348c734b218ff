import Sylar.Http.Grammar
import Sylar.Http.Message
import Sylar.Http.Segmentation

/-!
# Printing and parsing a request

The text that `dump` prints is read by the machine part by part, each at the state in which the
grammar expects it; the layout so is that of the request, and the parser makes the request of it.
Only the name of the method `M-SEARCH` is not in the grammar.

## Main definitions

* `Printable`: the requests whose parts are in the grammar
* `HttpMessage.printedHeaders`: the headers of the text
* `ParsesBack`: what a parser is to make of the text of a request

## Main results

* `parsesBack_iff`: the text of a printable request is parsed back unless its method is `M-SEARCH`
-/

namespace Sylar

open Foundation

namespace Http

/-! ## Requests in the grammar -/

/-- **The parts of a request are in the grammar** of a parser, and its headers are a map. -/
structure Printable (uri_relaxed : Bool) (request : HttpMessage) : Prop where
  method : request.method ≠ .invalid_method
  version : request.version = 0x10 ∨ request.version = 0x11
  path : IsPath uri_relaxed request.path
  query : IsQuery uri_relaxed request.query
  fragment : IsQuery uri_relaxed request.fragment
  headers : request.headers.Pairwise fun x y => caseInsensitiveLess x.1 y.1
  name : ∀ x ∈ request.headers, x.1 ≠ [] ∧ ∀ c ∈ x.1, isToken c = true
  other : ∀ x ∈ request.headers, strcasecmp x.1 (bytes "connection") = false ∧
    strcasecmp x.1 (bytes "content-length") = false
  value : ∀ x ∈ request.headers, (∀ c ∈ x.2, isContent c = true) ∧ x.2.head? ≠ some 32

/-- The header of the connection. -/
def HttpMessage.connection (request : HttpMessage) : List UInt8 × List UInt8 :=
  (bytes "connection", bytes (if request.close then "close" else "keep-alive"))

/-- The header with the length of the body, if there is one. -/
def HttpMessage.contentLength (request : HttpMessage) : List (List UInt8 × List UInt8) :=
  if request.body = [] then []
  else [(bytes "content-length", bytes (toString request.body.length))]

/-- The headers of a request and those that `dump` adds. -/
def HttpMessage.printedHeaders (request : HttpMessage) : List (List UInt8 × List UInt8) :=
  (request.connection :: request.contentLength).foldl
    (fun headers x => setHeader x.1 x.2 headers) request.headers

/-- **A fresh parser makes the request of its text** in one call: it takes the header part, and
leaves the body, whose length it knows. -/
structure ParsesBack (lexicalCast : List UInt8 → Option UInt64) (memory : HttpParser)
    (request : HttpMessage) (parser : HttpRequestParser) (n : ℕ) : Prop where
  execute : (HttpRequestParser.new memory).execute request.dump = some (parser, n, request.body)
  consumed : n + request.body.length = request.dump.length
  finished : parser.hasError = false ∧ parser.isFinished = true
  data : parser.data = { request.toHttpRequest with headers := request.printedHeaders }
  length : (parser.data.getContentLength lexicalCast).toNat = request.body.length

/-! ## The text in parts -/

variable {uri_relaxed : Bool} {request : HttpMessage}

/-- A header in its line. -/
def Line.of (blank : List UInt8) (header : List UInt8 × List UInt8) : Line :=
  ⟨header.1, blank, header.2⟩

/-- The lines of the headers, in the order in which they are printed. -/
def HttpMessage.lines (request : HttpMessage) : List Line :=
  .of [32] request.connection :: (request.headers.map (.of []) ++
    request.contentLength.map (.of [32]))

def HttpMessage.versionLine (request : HttpMessage) : List UInt8 :=
  bytes (if request.version = 0x11 then "HTTP/1.1\r\n" else "HTTP/1.0\r\n")

theorem dump_version (h : Printable uri_relaxed request) (rest : List UInt8) :
    bytes " HTTP/" ++ (bytes (toString (request.version.toNat >>> 4)) ++ (bytes "." ++
      (bytes (toString (request.version.toNat &&& 0x0F)) ++ (bytes "\r\n" ++ rest)))) =
      [32] ++ (request.versionLine ++ rest) := by
  have hversion : bytes " HTTP/" ++ (bytes (toString (request.version.toNat >>> 4)) ++ (bytes "." ++
      (bytes (toString (request.version.toNat &&& 0x0F)) ++ bytes "\r\n"))) =
      [32] ++ request.versionLine := by
    rcases h.version with hv | hv
    · rw [HttpMessage.versionLine, hv]
      decide
    · rw [HttpMessage.versionLine, hv]
      decide
  simpa only [List.append_assoc] using congrArg (· ++ rest) hversion

theorem dump_headers (h : Printable uri_relaxed request) :
    request.headers.flatMap dumpHeader = (request.headers.map (.of [])).flatMap Line.dump := by
  rw [List.flatMap_map]
  refine List.flatMap_congr fun x hx => ?_
  rw [dumpHeader, (h.other x hx).1, if_neg Bool.false_ne_true, List.append_assoc, List.append_assoc]
  rfl

theorem dump_body (request : HttpMessage) : (if request.body = [] then bytes "\r\n"
      else bytes "content-length: " ++ bytes (toString request.body.length) ++
        bytes "\r\n\r\n" ++ request.body) =
    (request.contentLength.map (.of [32])).flatMap Line.dump ++ ([13, 10] ++ request.body) := by
  unfold HttpMessage.contentLength
  split_ifs with hbody
  · rw [hbody]
    rfl
  · have hname : bytes "content-length: " = bytes "content-length" ++ [58, 32] := by decide
    have hend : bytes "\r\n\r\n" = [13, 10] ++ [13, 10] := by decide
    simp [hname, hend, Line.of, Line.dump]

/-- The request line. -/
def HttpMessage.requestLine (request : HttpMessage) : List UInt8 :=
  (bytes (httpMethodToString request.method) ++ [32]) ++ (request.path ++
    ((lead 63 request.query ++ request.query ++
      (lead 35 request.fragment ++ request.fragment ++ [32])) ++ request.versionLine))

/-- **The text of a request**: the request line, the lines of the headers, an empty line, and the
body. -/
theorem dump_eq (h : Printable uri_relaxed request) : request.dump =
    request.requestLine ++ request.lines.flatMap Line.dump ++ ([13, 10] ++ request.body) := by
  have hconnection : bytes "connection: " = bytes "connection" ++ [58, 32] := by decide
  have hend : bytes "\r\n" = [13, 10] := by decide
  have hlead : bytes " " = [32] ∧ bytes "?" = [63] ∧ bytes "#" = [35] := by decide
  unfold HttpMessage.dump
  rw [dump_body]
  simp only [List.append_assoc, dump_version h, dump_headers h, hlead]
  rw [HttpMessage.lines, List.flatMap_cons, List.flatMap_append]
  simp only [HttpMessage.requestLine, Line.of, Line.dump, HttpMessage.connection, lead, hconnection,
    hend, List.append_assoc, List.cons_append, List.nil_append]

/-! ## The layout of the text -/

theorem valid_connection (request : HttpMessage) : (Line.of [32] request.connection).Valid := by
  unfold HttpMessage.connection
  cases request.close
  · exact ⟨by decide, by decide +kernel, .inr rfl, by decide +kernel, by decide⟩
  · exact ⟨by decide, by decide +kernel, .inr rfl, by decide +kernel, by decide⟩

theorem valid_contentLength {line : Line}
    (h : line ∈ request.contentLength.map (.of [32])) : line.Valid := by
  unfold HttpMessage.contentLength at h
  split_ifs at h with hbody
  · cases h
  obtain rfl := List.mem_singleton.mp h
  obtain ⟨-, hdigits⟩ := digits_toString request.body.length
  have hname : bytes "content-length" ≠ [] ∧ ∀ c ∈ bytes "content-length", isToken c = true := by
    decide +kernel
  refine ⟨hname.1, hname.2, .inr rfl, fun c hc => ?_, fun hhead => ?_⟩
  · have hdigit := hdigits c hc
    simp only [isContent, Bool.and_eq_true, decide_eq_true_eq, UInt8.le_iff_toNat_le, Ne,
      ← UInt8.toNat_inj, UInt8.reduceToNat]
    omega
  · have hdigit := hdigits 32 (List.mem_of_mem_head? hhead)
    simp at hdigit

theorem lines_valid (h : Printable uri_relaxed request) : ∀ line ∈ request.lines, line.Valid := by
  intro line hline
  rcases List.mem_cons.mp hline with rfl | hline
  · exact valid_connection request
  rcases List.mem_append.mp hline with hline | hline
  · obtain ⟨x, hx, rfl⟩ := List.mem_map.mp hline
    exact ⟨(h.name x hx).1, (h.name x hx).2, .inl rfl, (h.value x hx).1, (h.value x hx).2⟩
  · exact valid_contentLength hline

theorem httpMethodToString_mem {m : HttpMethod} (h : m ≠ .invalid_method) :
    (m, httpMethodToString m) ∈ httpMethodMap := by
  cases m
  case invalid_method => exact absurd rfl h
  all_goals decide

/-- Where the parts of the text start. -/
def HttpMessage.pathStart (request : HttpMessage) : ℕ :=
  (bytes (httpMethodToString request.method) ++ [32]).length

def HttpMessage.queryStart (request : HttpMessage) : ℕ :=
  request.pathStart + request.path.length

def HttpMessage.fragmentStart (request : HttpMessage) : ℕ :=
  request.queryStart + (lead 63 request.query ++ request.query).length

def HttpMessage.versionStart (request : HttpMessage) : ℕ :=
  request.queryStart + (lead 63 request.query ++ request.query ++
    (lead 35 request.fragment ++ request.fragment ++ [32])).length

/-- A layout whose tokens are the parts of a request line. -/
structure LaysOut (request : HttpMessage) (l : Layout) : Prop where
  method : l.token .method = some ⟨0, (bytes (httpMethodToString request.method)).length⟩
  path : l.token .path = some ⟨request.pathStart, request.pathStart + request.path.length⟩
  query : l.token .query = if request.query = [] then none
    else some ⟨request.queryStart + 1, request.queryStart + 1 + request.query.length⟩
  fragment : l.token .fragment = if request.fragment = [] then none
    else some ⟨request.fragmentStart + 1, request.fragmentStart + 1 + request.fragment.length⟩
  version : l.token .version = some ⟨request.versionStart, request.versionStart + 8⟩

theorem token_noteQuery (p : ℕ) (query : List UInt8) (l : Layout) (k : Kind) :
    (l.noteQuery p query).token k =
      if k = .query ∧ query ≠ [] then some ⟨p + 1, p + 1 + query.length⟩ else l.token k := by
  unfold Layout.noteQuery
  split_ifs with hnil hk hk
  · exact absurd hnil hk.2
  · rfl
  · rw [hk.1, Layout.token_add_self]
  · exact Layout.token_add_of_ne fun heq => hk ⟨heq, hnil⟩

theorem token_noteFragment (p : ℕ) (fragment : List UInt8) (l : Layout) (k : Kind) :
    (l.noteFragment p fragment).token k =
      if k = .fragment ∧ fragment ≠ [] then some ⟨p + 1, p + 1 + fragment.length⟩
      else l.token k := by
  unfold Layout.noteFragment
  split_ifs with hnil hk hk
  · exact absurd hnil hk.2
  · rfl
  · rw [hk.1, Layout.token_add_self]
  · exact Layout.token_add_of_ne fun heq => hk ⟨heq, hnil⟩

/-- **The request line** is laid out as the request. -/
theorem reads_requestLine (h : Printable uri_relaxed request) (hm : request.method ≠ .msearch) :
    ∃ l, (automaton uri_relaxed).Reads Layout.note 1 0 {} request.requestLine 13 l ∧
      LaysOut request l ∧ l.fields = [] := by
  obtain ⟨cs, hpath, hends⟩ := reads_path (p := 0 + request.pathStart)
    (l := ({} : Layout).add .method ⟨0, (bytes (httpMethodToString request.method)).length⟩) h.path
  have hversion : request.versionLine ∈ [bytes "HTTP/1.0\r\n", bytes "HTTP/1.1\r\n"] := by
    unfold HttpMessage.versionLine
    split_ifs
    · exact List.mem_cons_of_mem _ (List.mem_singleton_self _)
    · exact List.mem_cons_self
  have hmethod : (automaton uri_relaxed).Reads Layout.note 1 0 {}
      (bytes (httpMethodToString request.method) ++ [32]) 3
      (({} : Layout).add .method ⟨0, (bytes (httpMethodToString request.method)).length⟩) :=
    reads_method (httpMethodToString_mem h.method) hm
  refine ⟨_, hmethod.append (hpath.append ((reads_query hends.state hends.blank hends.hash
    hends.mark h.query h.fragment).append (reads_version hversion))), ⟨?_, ?_, ?_, ?_, ?_⟩, ?_⟩
  · simp [token_noteFragment, token_noteQuery, Layout.add]
  · simp [token_noteFragment, token_noteQuery, Layout.add]
  · simp [token_noteFragment, token_noteQuery, Layout.add, HttpMessage.queryStart, ite_not]
  · simp [token_noteFragment, token_noteQuery, Layout.add, HttpMessage.queryStart,
      HttpMessage.fragmentStart, ite_not]
  · simp [Layout.add, HttpMessage.queryStart, HttpMessage.versionStart]
  · simp only [Layout.add, Layout.noteFragment, Layout.noteQuery]
    split_ifs <;> rfl

/-- **The machine ends behind the header part**, with the layout of the request. -/
theorem scan_dump (h : Printable uri_relaxed request) (hm : request.method ≠ .msearch) :
    ((automaton uri_relaxed).scan 1 0 request.dump).verdict = .ended 348 ∧
      ((automaton uri_relaxed).scan 1 0 request.dump).pos + request.body.length =
        request.dump.length ∧
      LaysOut request (layout uri_relaxed request.dump) ∧
      (layout uri_relaxed request.dump).fields =
        Line.fields request.requestLine.length request.lines := by
  obtain ⟨l, hline, hlays, hnone⟩ := reads_requestLine h hm
  obtain ⟨l', hlines, htoken, hfields⟩ :=
    reads_lines uri_relaxed (0 + request.requestLine.length) l (lines_valid h)
  have hreads := hline.append hlines
  -- the empty line
  have hempty : ∀ r p, (automaton r).scan 13 p ([13, 10] ++ request.body) =
      ⟨.ended 348, p + 2, [⟨p, 13, .start_field⟩, ⟨p + 1, 10, .done⟩]⟩ := by
    intro r p
    have hnext : ∀ r, next r 13 13 = some (18, [.start_field]) ∧
        next r 18 10 = some (348, [.done]) := by decide
    rw [List.cons_append, List.cons_append, Automaton.scan_more (hnext r).1 rfl,
      Automaton.scan_ended (hnext r).2 rfl]
    rfl
  obtain ⟨hended, hpos, hevents⟩ := hreads.ended (congrArg Scan.verdict (hempty uri_relaxed _))
  rw [hempty] at hpos hevents
  rw [layout, dump_eq h]
  refine ⟨hended, ?_, ?_, ?_⟩
  · rw [hpos]
    simp only [List.length_append, List.length_cons, List.length_nil]
    omega
  · rw [hevents]
    exact ⟨by rw [← hlays.method, ← htoken]; rfl, by rw [← hlays.path, ← htoken]; rfl,
      by rw [← hlays.query, ← htoken]; rfl, by rw [← hlays.fragment, ← htoken]; rfl,
      by rw [← hlays.version, ← htoken]; rfl⟩
  · rw [hevents]
    refine hfields.trans ?_
    rw [hnone, List.nil_append, Nat.zero_add]

/-! ## The request of the layout -/

variable {msg piece rest : List UInt8} {p : ℕ}

theorem text_of_drop (h : msg.drop p = piece ++ rest) :
    (⟨p, p + piece.length⟩ : Span).text msg = piece := by
  rw [Span.text, h, Nat.add_sub_cancel_left, List.take_left]

theorem drop_of_drop (h : msg.drop p = piece ++ rest) : msg.drop (p + piece.length) = rest := by
  rw [← List.drop_drop, h, List.drop_left]

theorem text_behind {c : UInt8} (h : msg.drop p = [c] ++ (piece ++ rest)) :
    (⟨p + 1, p + 1 + piece.length⟩ : Span).text msg = piece :=
  text_of_drop (drop_of_drop h)

/-- The fields of lines are set as headers, one after the other. -/
theorem headers_lines {lines : List Line} {headers : List (List UInt8 × List UInt8)}
    (hvalid : ∀ line ∈ lines, line.Valid)
    (h : msg.drop p = lines.flatMap Line.dump ++ rest) :
    (Line.fields p lines).foldl (Field.insert msg fun _ => 0) headers =
      lines.foldl (fun headers line => setHeader line.name line.value headers) headers := by
  induction lines generalizing p headers with
  | nil => rfl
  | cons line lines ih =>
    rw [List.flatMap_cons, List.append_assoc] at h
    have hname : msg.drop p = line.name ++ (58 :: (line.blank ++ (line.value ++ [13, 10])) ++
        (lines.flatMap Line.dump ++ rest)) := by
      rw [h, Line.dump, List.append_assoc]
    have hcolon : msg.drop (p + line.name.length) =
        [58] ++ (line.blank ++ (line.value ++ ([13, 10] ++
          (lines.flatMap Line.dump ++ rest)))) := by
      rw [drop_of_drop hname]
      simp
    have hkey := text_of_drop hname
    have hvalue := text_of_drop (drop_of_drop (drop_of_drop hcolon))
    have hfield : Field.insert msg (fun _ => 0) headers (line.field p) =
        setHeader line.name line.value headers := by
      simp only [Field.insert, Line.field, Span.clip, Nat.max_zero]
      rw [hkey, if_neg (hvalid line (by simp)).named]
      exact congrArg (fun v => setHeader line.name v headers) hvalue
    rw [Line.fields, List.foldl_cons, List.foldl_cons, hfield]
    exact ih (fun line hl => hvalid line (List.mem_cons_of_mem _ hl)) (drop_of_drop h)

theorem foldCase_connection :
    foldCase (bytes "connection") ≠ foldCase (bytes "content-length") := by
  decide

/-- The names of the methods are told apart. -/
theorem charsToHttpMethod_toString {m : HttpMethod} (h : m ≠ .invalid_method) :
    charsToHttpMethod (bytes (httpMethodToString m)) = m := by
  cases m
  case invalid_method => exact absurd rfl h
  all_goals decide

theorem mem_contentLength {x : List UInt8 × List UInt8} (h : x ∈ request.contentLength) :
    x = (bytes "content-length", bytes (toString request.body.length)) ∧ request.body ≠ [] := by
  unfold HttpMessage.contentLength at h
  split_ifs at h with hbody
  · cases h
  · exact ⟨List.mem_singleton.mp h, hbody⟩

/-- The headers that are printed have different names. -/
theorem names_ne (h : Printable uri_relaxed request) :
    (request.headers ++ request.connection :: request.contentLength).Pairwise
      fun x y => foldCase x.1 ≠ foldCase y.1 := by
  have hother : ∀ x ∈ request.headers, foldCase x.1 ≠ foldCase (bytes "connection") ∧
      foldCase x.1 ≠ foldCase (bytes "content-length") := fun x hx => by
    simpa only [strcasecmp_eq, decide_eq_false_iff_not] using h.other x hx
  rw [List.pairwise_append]
  refine ⟨h.headers.imp fun hless => ne_of_lt ((caseInsensitiveLess_iff _ _).mp hless), ?_, ?_⟩
  · refine List.pairwise_cons.mpr ⟨fun y hy => ?_, ?_⟩
    · rw [(mem_contentLength hy).1]
      exact foldCase_connection
    · unfold HttpMessage.contentLength
      split_ifs
      · exact List.Pairwise.nil
      · exact List.pairwise_singleton ..
  · intro x hx y hy
    rcases List.mem_cons.mp hy with rfl | hy
    · exact (hother x hx).1
    · rw [(mem_contentLength hy).1]
      exact (hother x hx).2

/-- **The headers that are set** line by line are those of the request, with those that `dump`
adds. -/
theorem headers_eq (h : Printable uri_relaxed request) :
    request.lines.foldl (fun headers line => setHeader line.name line.value headers) [] =
        request.printedHeaders ∧
      request.printedHeaders.Pairwise Before ∧ ∀ x, x ∈ request.printedHeaders ↔
        x ∈ request.headers ∨ x = request.connection ∨ x ∈ request.contentLength := by
  have hsorted : request.headers.Pairwise Before := h.headers.imp fun hless =>
    (caseInsensitiveLess_iff _ _).mp hless
  have hnames := names_ne h
  obtain ⟨hprinted, hmem⟩ := foldl_setHeader hsorted hnames
  -- the lines have the connection first
  have hperm : (request.headers ++ request.connection :: request.contentLength).Perm
      (request.connection :: (request.headers ++ request.contentLength)) := List.perm_middle
  have hlines : (request.connection :: (request.headers ++ request.contentLength)).Pairwise
      fun x y => foldCase x.1 ≠ foldCase y.1 :=
    (hperm.pairwise_iff fun hne => Ne.symm hne).mp hnames
  obtain ⟨hset, hmem'⟩ := foldl_setHeader List.Pairwise.nil hlines
  have hfold : request.lines.foldl (fun headers line => setHeader line.name line.value headers) [] =
      (request.connection :: (request.headers ++ request.contentLength)).foldl
        (fun headers x => setHeader x.1 x.2 headers) [] := by
    have hmap :
        request.lines.foldl (fun headers line => setHeader line.name line.value headers) [] =
        (request.lines.map fun line => (line.name, line.value)).foldl
          (fun headers x => setHeader x.1 x.2 headers) [] := by
      rw [List.foldl_map]
    rw [hmap]
    simp [HttpMessage.lines, Line.of, Function.comp_def]
  refine ⟨?_, hprinted, fun x => ?_⟩
  · rw [hfold]
    refine hset.eq_of_mem_iff hprinted fun x => ?_
    rw [hmem', HttpMessage.printedHeaders, hmem]
    simp only [List.not_mem_nil, List.mem_cons, List.mem_append, false_or]
    tauto
  · rw [HttpMessage.printedHeaders, hmem, List.mem_cons]

/-- **The length** that the printed headers announce. -/
theorem findHeader_contentLength (h : Printable uri_relaxed request) :
    findHeader (bytes "content-length") request.printedHeaders =
      if request.body = [] then none else some (bytes (toString request.body.length)) := by
  obtain ⟨-, hsorted, hmem⟩ := headers_eq h
  split_ifs with hbody
  · rw [Option.eq_none_iff_forall_ne_some]
    intro v hv
    obtain ⟨x, hx, hname, -⟩ := (findHeader_eq_some hsorted).mp hv
    rcases (hmem x).mp hx with hx | rfl | hx
    · have hne := (h.other x hx).2
      rw [strcasecmp_eq, decide_eq_false_iff_not] at hne
      exact hne hname
    · exact foldCase_connection hname
    · exact (mem_contentLength hx).2 hbody
  · refine (findHeader_eq_some hsorted).mpr ⟨(bytes "content-length", _), (hmem _).mpr ?_, rfl, rfl⟩
    rw [HttpMessage.contentLength, if_neg hbody]
    exact .inr (.inr (List.mem_singleton_self _))

/-- Where the parts of the text are. -/
theorem drop_dump (h : Printable uri_relaxed request) : ∃ r₁ r₂ r₃ r₄ r₅ : List UInt8,
    request.dump.drop 0 = bytes (httpMethodToString request.method) ++ r₁ ∧
      request.dump.drop request.pathStart = request.path ++ r₂ ∧
      request.dump.drop request.queryStart = lead 63 request.query ++ (request.query ++ r₃) ∧
      request.dump.drop request.fragmentStart =
        lead 35 request.fragment ++ (request.fragment ++ r₄) ∧
      request.dump.drop request.versionStart = request.versionLine ++ r₅ := by
  have hdump : request.dump.drop 0 = (bytes (httpMethodToString request.method) ++ [32]) ++
      (request.path ++ ((lead 63 request.query ++ request.query) ++
        ((lead 35 request.fragment ++ request.fragment ++ [32]) ++ (request.versionLine ++
          (request.lines.flatMap Line.dump ++ ([13, 10] ++ request.body)))))) := by
    rw [List.drop_zero, dump_eq h, HttpMessage.requestLine]
    simp only [List.append_assoc]
  have hpath := drop_of_drop hdump
  rw [Nat.zero_add] at hpath
  have hquery := drop_of_drop hpath
  have hfragment := drop_of_drop hquery
  have hversion := drop_of_drop (hquery.trans (List.append_assoc _ _ _).symm)
  rw [List.append_assoc, List.append_assoc] at hfragment
  exact ⟨_, _, _, _, _, hdump.trans (List.append_assoc ..), hpath,
    hquery.trans (List.append_assoc ..), hfragment, hversion⟩

theorem versionLine_eq (h : Printable uri_relaxed request) : ∃ text : List UInt8,
    request.versionLine = text ++ [13, 10] ∧ text.length = 8 ∧
      versionOf text 8 = some request.version := by
  unfold HttpMessage.versionLine
  rcases h.version with hv | hv
  · rw [hv]
    exact ⟨bytes "HTTP/1.0", by decide⟩
  · rw [hv]
    exact ⟨bytes "HTTP/1.1", by decide⟩

/-- **The layout of the text makes the request.** -/
theorem request_dump {l : Layout} (h : Printable uri_relaxed request) (hlays : LaysOut request l)
    (hfields : l.fields = Line.fields request.requestLine.length request.lines) :
    l.request request.dump (fun _ => 0) =
        { request.toHttpRequest with headers := request.printedHeaders } ∧
      l.error request.dump (fun _ => 0) = 0 := by
  obtain ⟨r₁, r₂, r₃, r₄, r₅, hname, hpath, hquery, hfragment, hversion⟩ := drop_dump h
  have hmethod : l.method request.dump (fun _ => 0) = some request.method := by
    have htext := text_of_drop hname
    rw [Nat.zero_add] at htext
    rw [Layout.method, hlays.method, Option.map_some, clip_zero, htext,
      charsToHttpMethod_toString h.method]
  have hversion' : l.version request.dump (fun _ => 0) = some (some request.version) := by
    obtain ⟨text, heq, hlen, hof⟩ := versionLine_eq h
    rw [heq, List.append_assoc] at hversion
    have htext := text_of_drop hversion
    rw [hlen] at htext
    rw [Layout.version, hlays.version, Option.map_some, clip_zero, htext, hlen, hof]
  have hheaders : l.headers request.dump (fun _ => 0) = request.printedHeaders := by
    rw [Layout.headers, hfields, ← (headers_eq h).1]
    have hdrop : request.dump.drop request.requestLine.length =
        request.lines.flatMap Line.dump ++ ([13, 10] ++ request.body) := by
      rw [dump_eq h, List.append_assoc, List.drop_left]
    exact headers_lines (lines_valid h) hdrop
  -- each part of the request is read from where the dump has put it
  constructor
  · rw [request_ext]
    simp only [Layout.request]
    refine ⟨?_, ?_, ?_, ?_, ?_, hheaders⟩
    · rw [hmethod, Option.filter_some_pos (by simpa using h.method)]
      rfl
    · rw [hversion']
      rfl
    · rw [hlays.path, Option.map_some, clip_zero, text_of_drop hpath]
      rfl
    · rw [hlays.query]
      split_ifs with hnil
      · exact hnil.symm
      · rw [lead, if_neg hnil] at hquery
        rw [Option.map_some, carry_zero, text_behind hquery]
        rfl
    · rw [hlays.fragment]
      split_ifs with hnil
      · exact hnil.symm
      · rw [lead, if_neg hnil] at hfragment
        rw [Option.map_some, clip_zero, text_behind hfragment]
        rfl
  · rw [error_eq_zero, hmethod, hversion']
    exact ⟨by simp, by simpa using h.method⟩

/-! ## Round trip -/

variable {lexicalCast : List UInt8 → Option UInt64} {memory : HttpParser}

/-- The parser makes the request of its text, if the machine knows its method. -/
theorem parsesBack_of_ne
    (hlexical : ∀ n : UInt64, lexicalCast (bytes (toString n.toNat)) = some n)
    (hsize : request.dump.length < 2 ^ 64) (h : Printable memory.uri_relaxed request)
    (hm : request.method ≠ .msearch) :
    ∃ parser n, ParsesBack lexicalCast memory request parser n := by
  obtain ⟨hended, hpos, hlays, hfields⟩ := scan_dump h hm
  obtain ⟨parser, hexec, hcs, hdata, herror⟩ := execute_of_ended hsize hended
  obtain ⟨hrequest, hnone⟩ := request_dump h hlays hfields
  have hbody : request.dump.drop ((automaton memory.uri_relaxed).scan 1 0 request.dump).pos =
      request.body := by
    have hfront : request.dump = (request.requestLine ++ request.lines.flatMap Line.dump ++
        [13, 10]) ++ request.body := by
      rw [dump_eq h, List.append_assoc _ [13, 10]]
    have hlen := congrArg List.length hfront
    rw [List.length_append] at hlen
    rw [show ((automaton memory.uri_relaxed).scan 1 0 request.dump).pos =
      (request.requestLine ++ request.lines.flatMap Line.dump ++ [13, 10]).length by omega]
    conv_lhs => rw [hfront]
    exact List.drop_left
  have hparsed := hdata.trans hrequest
  refine ⟨parser, _, ⟨hbody ▸ hexec, hpos, finished_of_ended hended hcs (herror.trans hnone),
    hparsed, ?_⟩⟩
  have hfits : request.body.length < 2 ^ 64 := by omega
  rw [hparsed, HttpRequest.getContentLength, findHeader_contentLength h]
  split_ifs with hnil
  · rw [hnil]
    rfl
  · have hcast := hlexical (.ofNat request.body.length)
    rw [UInt64.toNat_ofNat_of_lt' hfits] at hcast
    rw [Option.bind_some, hcast, Option.getD_some, UInt64.toNat_ofNat_of_lt' hfits]

/-- The text of a request with the method `M-SEARCH` is an error. -/
theorem not_parsesBack (hm : request.method = .msearch) {parser : HttpRequestParser} {n : ℕ} :
    ¬ ParsesBack lexicalCast memory request parser n := by
  intro h
  have hended := ended_of_execute h.execute h.finished.1 h.finished.2
  have hdump : ∃ rest, request.dump = 77 :: 45 :: rest := by
    unfold HttpMessage.dump
    rw [hm]
    exact ⟨_, rfl⟩
  obtain ⟨rest, hdump⟩ := hdump
  have hnext : ∀ r, next r 1 77 = some (2, [.mark]) ∧ next r 2 45 = none := by decide
  rw [hdump, Automaton.scan_more (hnext memory.uri_relaxed).1 rfl,
    Automaton.scan_error (hnext memory.uri_relaxed).2] at hended
  cases hended

/-- **Printing and parsing a request**: the text of a request in the grammar is parsed back, up to
the headers that the text has more, exactly if its method is not `M-SEARCH`. -/
theorem parsesBack_iff
    (hlexical : ∀ n : UInt64, lexicalCast (bytes (toString n.toNat)) = some n)
    (hsize : request.dump.length < 2 ^ 64) (h : Printable memory.uri_relaxed request) :
    (∃ parser n, ParsesBack lexicalCast memory request parser n) ↔ request.method ≠ .msearch := by
  constructor
  · rintro ⟨parser, n, hback⟩ hm
    exact not_parsesBack hm hback
  · exact parsesBack_of_ne hlexical hsize h

/-- A request with all its parts. -/
def fullRequest : HttpMessage where
  method := .post
  path := bytes "/a"
  query := bytes "x=1"
  fragment := bytes "top"
  headers := [(bytes "Accept", bytes "*/*")]
  close := false
  body := bytes "ok"

theorem printable_full : Printable false fullRequest where
  method := by decide
  version := .inr rfl
  path := ⟨rfl, by decide +kernel, by decide⟩
  query := .cons (by decide) (.cons (by decide) (.cons (by decide) .nil))
  fragment := .cons (by decide) (.cons (by decide) (.cons (by decide) .nil))
  headers := List.pairwise_singleton ..
  name := by decide +kernel
  other := by decide
  value := by decide +kernel

/-- A request with all its parts is parsed back. -/
theorem parsesBack_iff_full :
    (∃ parser n, ParsesBack decimal .zero fullRequest parser n) ↔ fullRequest.method ≠ .msearch :=
  parsesBack_iff decimal_toString (by decide) printable_full

/-- A request with the method `M-SEARCH` and nothing else. -/
def searchRequest : HttpMessage where
  method := .msearch

theorem printable_search : Printable false searchRequest where
  method := by decide
  version := .inr rfl
  path := ⟨rfl, by decide +kernel, by decide⟩
  query := .nil
  fragment := .nil
  headers := .nil
  name := by decide
  other := by decide
  value := by decide

/-- Its text is an error to a parser. -/
theorem search_rejected : Printable HttpParser.zero.uri_relaxed searchRequest ∧
    ((HttpRequestParser.new .zero).execute searchRequest.dump).map (fun r => r.1.hasError) =
      some true ∧
    ¬ ∃ parser n, ParsesBack decimal .zero searchRequest parser n := by
  refine ⟨printable_search, by decide, ?_⟩
  rintro ⟨parser, n, h⟩
  exact not_parsesBack rfl h

end Http

end Sylar
