import Sylar.Http.Framing
import Sylar.Http.Heads

/-!
# Printing and parsing a response

The text that `HttpResponse::dump` prints is a head with a line for each header of the map, one for
the connection and one for the length of the body, and the body. Where none of the headers of the
map has a name that the text has besides, or asks for chunks, a parser makes the response of it, up
to what is not in the text: the flag of the connection is there only as a header.

## Main definitions

* `HttpResponse.Printable`: the responses whose parts a parser knows
* `HttpResponse.received`: what a parser makes of the text of a response

## Main results

* `response_parsesBack`: the text of a printable response is parsed back
-/

namespace Sylar

open Foundation

namespace Http

-- `decide` runs through a list, and not through all bytes
attribute [local instance (high)] List.decidableBAll Option.decidableForallMem

/-! ## Responses that can be printed -/

/-- **The parts of a response** are those that a parser knows, and its headers are a map without
the names that the text has besides, or that change how the body is read. -/
structure HttpResponse.Printable (response : HttpResponse) : Prop where
  version : response.version = 0x10 ∨ response.version = 0x11
  reason : ∀ c ∈ response.reason, isText c = true
  headers : response.headers.Pairwise fun x y => caseInsensitiveLess x.1 y.1
  name : ∀ x ∈ response.headers, x.1 ≠ [] ∧ ∀ c ∈ x.1, isToken c = true
  other : ∀ x ∈ response.headers, ∀ name ∈ watched, strcasecmp x.1 name = false
  value : ∀ x ∈ response.headers,
    (∀ c ∈ x.2, isText c = true) ∧ ∀ c ∈ x.2.head?, isSpacing c = false

namespace HttpResponse

variable {response : HttpResponse}

/-- The reason that is printed. -/
def printedReason (response : HttpResponse) : List UInt8 :=
  if response.reason = [] then bytes (httpStatusToString response.status) else response.reason

/-- The header with the length of the body, if there is one. -/
def contentLength (response : HttpResponse) : List (List UInt8 × List UInt8) :=
  if response.body = [] then [] else [lengthField response.body.length]

/-- The headers of a response and those that `dump` adds. -/
def printedHeaders (response : HttpResponse) : List (List UInt8 × List UInt8) :=
  (connectionField response.close :: response.contentLength).foldl
    (fun headers x => setHeader x.1 x.2 headers) response.headers

/-- What a parser makes of the head of a response: the body is not its business. -/
def received (response : HttpResponse) : HttpResponse where
  status := response.status
  version := response.version
  reason := response.printedReason
  headers := response.printedHeaders

/-- The lines of the headers, in the order in which they are printed. -/
def lines (response : HttpResponse) : List Line :=
  (response.headers ++ connectionField response.close :: response.contentLength).map (.of [32])

/-- What `dump` prints in front of the body. -/
def head (response : HttpResponse) : ResponseHead where
  version := bytes (if response.version = 0x11 then "HTTP/1.1" else "HTTP/1.0")
  status := bytes (toString response.status.toNat)
  reason := response.printedReason
  lines := response.lines

/-! ## The text in parts -/

theorem dump_version (h : response.Printable) (rest : List UInt8) :
    bytes "HTTP/" ++ (bytes (toString (response.version.toNat >>> 4)) ++ (bytes "." ++
      (bytes (toString (response.version.toNat &&& 0x0F)) ++ rest))) =
        response.head.version ++ rest := by
  have hversion : bytes "HTTP/" ++ (bytes (toString (response.version.toNat >>> 4)) ++ (bytes "." ++
      bytes (toString (response.version.toNat &&& 0x0F)))) = response.head.version := by
    simp only [head]
    rcases h.version with hv | hv
    · rw [hv]
      decide
    · rw [hv]
      decide
  simpa only [List.append_assoc] using congrArg (· ++ rest) hversion

/-- No header of the map is left out. -/
theorem dump_headers (h : response.Printable) : response.headers.flatMap dumpHeader =
    (response.headers.map (.of [32])).flatMap Line.dump := by
  rw [List.flatMap_map]
  refine List.flatMap_congr fun x hx => ?_
  have hne : x.1 ≠ bytes "connection" := by
    intro heq
    have hother := h.other x hx (bytes "connection") (by simp [watched])
    rw [heq, strcasecmp_eq, decide_eq_false_iff_not] at hother
    exact hother rfl
  rw [dumpHeader, if_neg hne]
  simp [Line.of, Line.dump, bytes]

/-- What is printed behind the headers of the map. -/
theorem dump_end (response : HttpResponse) :
    bytes "connection: " ++ (bytes (if response.close then "close" else "keep-alive") ++
      (bytes "\r\n" ++ if response.body = [] then bytes "\r\n"
        else bytes "content-length: " ++ (bytes (toString response.body.length) ++
          (bytes "\r\n\r\n" ++ response.body)))) =
      ((connectionField response.close :: response.contentLength).map (.of [32])).flatMap
        Line.dump ++ ([13, 10] ++ response.body) := by
  have htext : bytes "\r\n" = [13, 10] ∧ bytes "\r\n\r\n" = [13, 10, 13, 10] ∧
      bytes ": " = [58, 32] := by
    decide
  obtain ⟨hcrlf, hblank, hcolon⟩ := htext
  rw [connection_text, contentLength_text, hcrlf, hblank, hcolon, contentLength]
  by_cases hbody : response.body = []
  · simp [hbody, Line.of, Line.dump, connectionField]
  · simp [hbody, Line.of, Line.dump, connectionField, lengthField]

/-- **The text of a response** is its head with its body. -/
theorem dump_eq (h : response.Printable) :
    response.dump = response.head.dump ++ response.body := by
  have hblank : bytes " " = [32] ∧ bytes "\r\n" = [13, 10] := by decide
  have hlines : response.head.lines = response.headers.map (.of [32]) ++
      (connectionField response.close :: response.contentLength).map (.of [32]) :=
    List.map_append
  simp only [dump, List.append_assoc, dump_version h, dump_headers h, dump_end]
  simp only [ResponseHead.dump, ResponseHead.rest, hlines, hblank, List.flatMap_append]
  simp [head, printedReason]

/-! ## The parts in the grammar -/

/-- Names that are spelled with the same letters in any case are the same. -/
theorem foldCase_congr {name name' : List UInt8} (h : name.map toLower = name'.map toLower) :
    foldCase name = foldCase name' := by
  have hfold : ∀ text : List UInt8,
      foldCase text = ((text.map toLower).takeWhile (· ≠ 0)).map UInt8.toNat := by
    intro text
    rw [foldCase, List.takeWhile_map, List.map_map]
    congr 2
    funext c
    simp [toLower_eq_zero]
  rw [hfold, hfold, h]

/-- A header of the map is none that the machine looks for. -/
theorem not_watched (h : response.Printable) {x : List UInt8 × List UInt8}
    (hx : x ∈ response.headers) : x.1.map toLower ∉ watched := by
  intro hmem
  have hlower : ∀ name ∈ watched, name.map toLower = name := by decide
  have hother := h.other x hx _ hmem
  rw [strcasecmp_eq, decide_eq_false_iff_not] at hother
  exact hother (foldCase_congr (hlower _ hmem).symm)

theorem blank_spacing : ∀ c ∈ ([32] : List UInt8), isSpacing c = true := by
  decide +kernel

theorem regular_connection (close : Bool) : (Line.of [32] (connectionField close)).Ordinary := by
  cases close
  · exact ⟨⟨by decide, by decide +kernel, blank_spacing, by decide +kernel, by decide +kernel⟩,
      by decide, fun h => by cases h.1⟩
  · exact ⟨⟨by decide, by decide +kernel, blank_spacing, by decide +kernel, by decide +kernel⟩,
      by decide, fun h => by cases h.1⟩

theorem digit_text : ∀ n : Fin 256, Foundation.isDigit (.ofNat n) = true →
    isText (.ofNat n) = true ∧ isSpacing (.ofNat n) = false ∧ isDigit (.ofNat n) = true := by
  decide +kernel

theorem digits_text (n : ℕ) : ∀ c ∈ bytes (toString n),
    isText c = true ∧ isSpacing c = false ∧ isDigit c = true := by
  intro c hc
  have h := digit_text ⟨c.toNat, c.toNat_lt⟩
  simp only [UInt8.ofNat_toNat] at h
  exact h (isDigit_toString n c hc)

theorem regular_length (size : ℕ) : (Line.of [32] (lengthField size)).Ordinary := by
  have htext := digits_text size
  refine ⟨⟨by simp [Line.of, lengthField, bytes], ?_, blank_spacing, fun c hc => (htext c hc).1,
    fun c hc => (htext c (List.mem_of_mem_head? hc)).2.1⟩, ?_, fun h => ?_⟩
  · have hname : ∀ c ∈ bytes "content-length", isToken c = true := by decide +kernel
    exact hname
  · have hname : (bytes "content-length").map toLower ≠ bytes "transfer-encoding" := by decide
    exact hname
  · exact bytes_toString_ne_nil size h.1

/-- **The lines** are ordinary. -/
theorem lines_ordinary (h : response.Printable) : ∀ line ∈ response.head.lines, line.Ordinary := by
  intro line hline
  obtain ⟨x, hx, rfl⟩ := List.mem_map.mp hline
  rcases List.mem_append.mp hx with hx | hx
  · have hname := h.name x hx
    have hvalue := h.value x hx
    have hwatched := not_watched h hx
    refine ⟨⟨hname.1, hname.2, blank_spacing, hvalue.1, hvalue.2⟩, fun heq => hwatched ?_,
      fun hleaves => hwatched hleaves.2⟩
    rw [show x.1.map toLower = _ from heq]
    decide
  · rcases List.mem_cons.mp hx with rfl | hx
    · exact regular_connection _
    · rw [contentLength] at hx
      split_ifs at hx with hbody
      · cases hx
      · rw [List.mem_singleton.mp hx]
        exact regular_length _

theorem reasons_text : ∀ x ∈ httpStatusMap,
    bytes x.2 ≠ [] ∧ ∀ c ∈ bytes x.2, isText c = true := by
  decide +kernel

/-- The reason that is printed is never empty. -/
theorem printedReason_text (h : response.Printable) : response.printedReason ≠ [] ∧
    ∀ c ∈ response.printedReason, isText c = true := by
  unfold printedReason
  split_ifs with hreason
  · unfold httpStatusToString
    cases hfind : httpStatusMap.find? fun x => x.1 = response.status with
    | none =>
      have hunknown : bytes "<unknown>" ≠ [] ∧ ∀ c ∈ bytes "<unknown>", isText c = true := by
        decide +kernel
      exact hunknown
    | some x => exact reasons_text x (List.mem_of_find?_eq_some hfind)
  · exact ⟨hreason, h.reason⟩

theorem head_regular (h : response.Printable) : response.head.Regular where
  version := by
    simp only [head]
    split_ifs
    · decide
    · decide
  status := bytes_toString_ne_nil _
  digits := fun c hc => (digits_text _ c hc).2.2
  reason := (printedReason_text h).2
  lines := fun line hline => (lines_ordinary h line hline).regular

/-! ## The response of the head -/

/-- The headers that are printed have different names. -/
theorem names_ne (h : response.Printable) :
    (response.headers ++ connectionField response.close :: response.contentLength).Pairwise
      fun x y => foldCase x.1 ≠ foldCase y.1 := by
  have hother : ∀ x ∈ response.headers, foldCase x.1 ≠ foldCase (bytes "connection") ∧
      foldCase x.1 ≠ foldCase (bytes "content-length") := by
    intro x hx
    have hall := h.other x hx
    simp only [watched, List.mem_cons, forall_eq_or_imp, strcasecmp_eq,
      decide_eq_false_iff_not] at hall
    exact ⟨hall.1, hall.2.1⟩
  have hlength : ∀ y ∈ response.contentLength, y.1 = bytes "content-length" := by
    intro y hy
    rw [contentLength] at hy
    split_ifs at hy with hbody
    · cases hy
    · rw [List.mem_singleton.mp hy]
      rfl
  rw [List.pairwise_append]
  refine ⟨h.headers.imp fun hless => ne_of_lt ((caseInsensitiveLess_iff _ _).mp hless), ?_, ?_⟩
  · refine List.pairwise_cons.mpr ⟨fun y hy => ?_, ?_⟩
    · rw [hlength y hy]
      exact foldCase_connection
    · unfold contentLength
      split_ifs
      · exact List.Pairwise.nil
      · exact List.pairwise_singleton ..
  · intro x hx y hy
    rcases List.mem_cons.mp hy with rfl | hy
    · exact (hother x hx).1
    · rw [hlength y hy]
      exact (hother x hx).2

/-- **The headers that are set** line by line are those of the response, with those that `dump`
adds. -/
theorem headers_eq (h : response.Printable) :
    response.lines.foldl (fun headers line => setHeader line.name line.value headers) [] =
        response.printedHeaders ∧
      response.printedHeaders.Pairwise Before ∧ ∀ x, x ∈ response.printedHeaders ↔
        x ∈ response.headers ∨ x = connectionField response.close ∨
          x ∈ response.contentLength := by
  have hsorted : response.headers.Pairwise Before := h.headers.imp fun hless =>
    (caseInsensitiveLess_iff _ _).mp hless
  have hnames := names_ne h
  obtain ⟨hprinted, hmem⟩ := foldl_setHeader hsorted hnames
  obtain ⟨hset, hmem'⟩ := foldl_setHeader List.Pairwise.nil hnames
  refine ⟨?_, hprinted, fun x => ?_⟩
  · rw [lines, List.foldl_map]
    refine hset.eq_of_mem_iff hprinted fun x => ?_
    rw [hmem', printedHeaders, hmem]
    exact ⟨fun hx => List.mem_append.mp (hx.resolve_left List.not_mem_nil),
      fun hx => .inr (List.mem_append.mpr hx)⟩
  · rw [printedHeaders, hmem, List.mem_cons]

theorem digitsValue_numeral {digits : List UInt8} (n : ℕ)
    (h : ∀ c ∈ digits, Foundation.isDigit c = true) :
    digitsValue 10 n digits = digits.foldl (fun n c => 10 * n + (c.toNat - 48)) n := by
  induction digits generalizing n with
  | nil => rfl
  | cons c digits ih =>
    have hc := isDigit_iff.mp (h c (by simp))
    have hvalue : digitValue 10 c = some (c.toNat - 48) := by
      have hrange : 48 ≤ c ∧ c ≤ 57 := hc
      have hlt : c.toNat - 48 < 10 := by omega
      simp only [digitValue, if_pos hrange, if_pos hlt]
    rw [digitsValue, hvalue]
    exact ih _ fun d hd => h d (List.mem_cons_of_mem _ hd)

/-- **The number of a status** is read back. -/
theorem status_toString (status : UInt32) :
    UInt32.ofInt (atoi (bytes (toString status.toNat))) = status := by
  have hlt := status.toNat_lt
  have hnumber : strtol 10 (bytes (toString status.toNat)) = (status.toNat : Int) := by
    have hdigits := digits_text status.toNat
    have hvalue : digitsValue 10 0 (bytes (toString status.toNat)) = status.toNat :=
      (digitsValue_numeral 0 (isDigit_toString status.toNat)).trans
        (numeral_toString status.toNat)
    cases htext : bytes (toString status.toNat) with
    | nil => exact absurd htext (bytes_toString_ne_nil _)
    | cons c text =>
      rw [htext] at hdigits hvalue
      rw [strtol_cons _ (hdigits c (by simp)).2.2, hvalue, Nat.min_eq_left (by omega)]
  apply UInt32.toNat_inj.mp
  have hmod : Int.bmod status.toNat (2 ^ 32) % 2 ^ 32 = status.toNat := by
    exact Int.bmod_emod.trans (Int.emod_eq_of_lt (by omega) (by exact_mod_cast hlt))
  rw [atoi, hnumber, longToInt, UInt32.ofInt, hmod, Int.toNat_natCast,
    UInt32.toNat_ofNat_of_lt' hlt]

/-- **The response of the head** is the response, as far as it is in the text. -/
theorem response_head (h : response.Printable) : response.head.response = response.received := by
  have hheaders : response.head.response.headers = response.printedHeaders := (headers_eq h).1
  have hversion : response.head.versionNumber = response.version := by
    rcases h.version with hv | hv
    · simp only [ResponseHead.versionNumber, head, hv]
      decide
    · simp only [ResponseHead.versionNumber, head, hv]
      decide
  have hstatus : response.head.response.status = response.status :=
    status_toString response.status
  have hresponse : response.head.response = { response.received with
      status := response.head.response.status
      version := response.head.versionNumber
      headers := response.head.response.headers } := rfl
  rw [hresponse, hstatus, hversion, hheaders]
  rfl

/-! ## Round trip -/

/-- The length that the printed headers announce. -/
theorem findHeader_length (h : response.Printable) :
    findHeader (bytes "content-length") response.printedHeaders =
      if response.body = [] then none else some (bytes (toString response.body.length)) := by
  obtain ⟨-, hsorted, hmem⟩ := headers_eq h
  split_ifs with hbody
  · rw [Option.eq_none_iff_forall_ne_some]
    intro v hv
    obtain ⟨x, hx, hname, -⟩ := (findHeader_eq_some hsorted).mp hv
    rcases (hmem x).mp hx with hx | rfl | hx
    · have hne := h.other x hx (bytes "content-length") (by simp [watched])
      rw [strcasecmp_eq, decide_eq_false_iff_not] at hne
      exact hne hname
    · exact foldCase_connection hname
    · rw [contentLength, if_pos hbody] at hx
      cases hx
  · refine (findHeader_eq_some hsorted).mpr ⟨lengthField response.body.length, (hmem _).mpr ?_,
      rfl, rfl⟩
    rw [contentLength, if_neg hbody]
    exact .inr (.inr (List.mem_singleton_self _))

/-- **A parser makes the response of its text** in one call: it takes the head, which does not ask
for chunks, and leaves the body, whose length it knows. -/
structure ParsesBack (lexicalCast : List UInt8 → Option UInt64) (memory : HttpclientParser)
    (response : HttpResponse) (parser : HttpResponseParser) (n : ℕ) : Prop where
  execute : (HttpResponseParser.new memory).execute response.dump false =
    some (parser, n, response.body)
  consumed : n + response.body.length = response.dump.length
  finished : parser.hasError = false ∧ parser.isFinished = true
  chunked : parser.parser.chunked = false
  data : parser.data = response.received
  length : (parser.getContentLength lexicalCast).toNat = response.body.length

variable {lexicalCast : List UInt8 → Option UInt64}

/-- The head of a response, with what has come of its body. -/
theorem execute_dump (h : response.Printable) (memory : HttpclientParser) (front : List UInt8) :
    ∃ parser, (HttpResponseParser.new memory).execute (response.head.dump ++ front) false =
        some (parser, response.head.dump.length, front) ∧
      parser.data = response.received ∧ parser.hasError = false ∧ parser.isFinished = true ∧
      parser.parser.chunked = false := by
  obtain ⟨parser, hexec, hdata, hdone⟩ := HttpResponseParser.execute_head (head_regular h)
    (printedReason_text h).1 (lines_ordinary h) memory front
  exact ⟨parser, hexec, hdata.trans (response_head h), hdone⟩

/-- The announced length is that of the body. -/
theorem getContentLength_received
    (hlexical : ∀ n : UInt64, lexicalCast (bytes (toString n.toNat)) = some n)
    (hsize : response.body.length < 2 ^ 64) (h : response.Printable) {parser : HttpResponseParser}
    (hdata : parser.data = response.received) :
    (parser.getContentLength lexicalCast).toNat = response.body.length := by
  have hfind : findHeader (bytes "content-length") parser.data.headers =
      if response.body = [] then none else some (bytes (toString response.body.length)) := by
    rw [hdata]
    exact findHeader_length h
  rw [HttpResponseParser.getContentLength, hfind]
  split_ifs with hnil
  · rw [hnil]
    rfl
  · have hcast := hlexical (.ofNat response.body.length)
    rw [UInt64.toNat_ofNat_of_lt' hsize] at hcast
    rw [Option.bind_some, hcast, Option.getD_some, UInt64.toNat_ofNat_of_lt' hsize]

end HttpResponse

/-- **Printing and parsing a response**: the text of a printable response is parsed back, up to the
headers that the text has more. -/
theorem response_parsesBack {lexicalCast : List UInt8 → Option UInt64} {response : HttpResponse}
    (hlexical : ∀ n : UInt64, lexicalCast (bytes (toString n.toNat)) = some n)
    (hsize : response.body.length < 2 ^ 64) (h : response.Printable) (memory : HttpclientParser) :
    ∃ parser n, response.ParsesBack lexicalCast memory parser n := by
  obtain ⟨parser, hexec, hdata, herror, hfinished, hchunked⟩ :=
    HttpResponse.execute_dump h memory response.body
  rw [← HttpResponse.dump_eq h] at hexec
  refine ⟨parser, _, hexec, ?_, ⟨herror, hfinished⟩, hchunked, hdata,
    HttpResponse.getContentLength_received hlexical hsize h hdata⟩
  rw [HttpResponse.dump_eq h, List.length_append]

/-- A response with all its parts. -/
def fullResponse : HttpResponse where
  status := 404
  close := false
  reason := bytes "Gone away"
  headers := [(bytes "Server", bytes "custom-server/1.0.0"), (bytes "X-Empty", [])]
  body := bytes "<html></html>"

theorem printable_fullResponse : fullResponse.Printable where
  version := .inr rfl
  reason := by decide +kernel
  headers := by decide
  name := by decide +kernel
  other := by decide
  value := by decide +kernel

theorem response_parsesBack_full : ∃ parser n, fullResponse.ParsesBack decimal
    ⟨0, 0, 0, 0, false, false, false, 0, 0, 0, 0⟩ parser n :=
  response_parsesBack decimal_toString (by decide) printable_fullResponse _

end Http

end Sylar
