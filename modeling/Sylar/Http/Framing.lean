import Sylar.Foundation.Lines
import Sylar.Foundation.Text
import Sylar.Http.Response

/-!
# The headers that a message prints

Who reads the text of a message cuts it at the line breaks, skips the first line, and takes the
lines up to the first empty one for headers. The line of the connection and the length of the body
should be there once, whatever the strings of the message are.

`HttpRequest::dump` writes the connection itself and leaves out the headers of the map with that
name, in any letter case; `HttpResponse::dump` leaves out the one that is spelt as it spells it.
Neither looks at the length of the body in the map. The strings of a message are written as they
are, so they may hold line breaks, and bring in lines of their own: the messages whose text is
unambiguous are described by the lines in front of the line of the connection and behind it.

## Main definitions

* `headerFields`: the headers that a reader finds in a text
* `Unambiguous`: what a reader relies on
* `Framed`: the lines that the strings of a message may bring in

## Main results

* `framing_iff`: the messages whose text is unambiguous
* `framed_request_iff`, `framed_response_iff`: messages without line breaks in their strings
-/

namespace Sylar

open Foundation

namespace Http

variable {front back : List (List UInt8)} {close : Bool} {size : ℕ} {text line : List UInt8}

/-! ## What a reader finds -/

def textLines (text : List UInt8) : List (List UInt8) := pieces 13 10 text

theorem textLines_append (xs ys : List UInt8) :
    textLines (xs ++ 13 :: 10 :: ys) = textLines xs ++ textLines ys :=
  pieces_append (by decide) xs ys

theorem textLines_of_not_mem (h : 13 ∉ line) : textLines line = [line] := pieces_of_not_mem h

theorem textLines_ne_nil (text : List UInt8) : textLines text ≠ [] := pieces_ne_nil text

def isBlank (c : UInt8) : Bool := c = 32 || c = 9

/-- The name and the value of a header line. -/
def readField (line : List UInt8) : List UInt8 × List UInt8 :=
  (line.takeWhile (· ≠ 58), (line.dropWhile (· ≠ 58)).tail.dropWhile isBlank)

/-- The headers in lines, up to the first empty one. -/
def readFields (lines : List (List UInt8)) : List (List UInt8 × List UInt8) :=
  (lines.takeWhile fun line => line ≠ []).map readField

/-- The headers in a text, behind its first line. -/
def headerFields (text : List UInt8) : List (List UInt8 × List UInt8) :=
  readFields (textLines text).tail

def SameName (x y : List UInt8 × List UInt8) : Prop := foldCase x.1 = foldCase y.1

def Named (name : String) (x : List UInt8 × List UInt8) : Prop :=
  foldCase x.1 = foldCase (bytes name)

instance (name : String) (x : List UInt8 × List UInt8) : Decidable (Named name x) :=
  inferInstanceAs (Decidable (foldCase x.1 = foldCase (bytes name)))

instance : DecidableRel SameName := fun x y =>
  inferInstanceAs (Decidable (foldCase x.1 = foldCase y.1))

/-- A value is a number in decimal. -/
def Says (value : List UInt8) (n : ℕ) : Prop :=
  value ≠ [] ∧ (∀ c ∈ value, Foundation.isDigit c = true) ∧ numeral value = n

/-- Each name at most once, one connection line that says whether the connection is closed, and no
length but that of the body. -/
structure Unambiguous (close : Bool) (size : ℕ) (text : List UInt8) : Prop where
  names : (headerFields text).Pairwise fun x y => ¬ SameName x y
  connection : ∃ x ∈ headerFields text, Named "connection" x
  close : ∀ x ∈ headerFields text, Named "connection" x → (x.2 = bytes "close" ↔ close = true)
  length : ∀ x ∈ headerFields text, Named "content-length" x → Says x.2 size

theorem readFields_append_of_mem (h : [] ∈ front) (back : List (List UInt8)) :
    readFields (front ++ back) = readFields front := by
  rw [readFields, takeWhile_append_of_exists ⟨[], h, by decide⟩]
  rfl

theorem readFields_of_not_mem (h : [] ∉ front) : readFields front = front.map readField := by
  rw [readFields, List.takeWhile_eq_self_iff.mpr]
  intro line hline
  simpa using ne_of_mem_of_not_mem hline h

theorem readFields_append (h : [] ∉ front) (back : List (List UInt8)) :
    readFields (front ++ back) = readFields front ++ readFields back := by
  rw [readFields_of_not_mem h, readFields, List.takeWhile_append_of_pos, List.map_append]
  · rfl
  · intro line hline
    simpa using ne_of_mem_of_not_mem hline h

theorem readFields_cons (hline : line ≠ []) (back : List (List UInt8)) :
    readFields (line :: back) = readField line :: readFields back := by
  rw [readFields, List.takeWhile_cons_of_pos (by simpa using hline)]
  rfl

/-- The name of a line ends at the colon, and the value starts behind the blanks. -/
theorem readField_colon {name : List UInt8} (hname : 58 ∉ name) (rest : List UInt8) :
    readField (name ++ 58 :: rest) = (name, rest.dropWhile isBlank) := by
  have hall : ∀ c ∈ name, decide (c ≠ 58) = true := by
    intro c hc
    simpa using ne_of_mem_of_not_mem hc hname
  rw [readField, List.takeWhile_append_of_pos hall, List.dropWhile_append_of_pos hall,
    List.takeWhile_cons_of_neg (by decide), List.dropWhile_cons_of_neg (by decide),
    List.append_nil, List.tail_cons]

/-! ## The lines that the program writes itself -/

/-- The header that says whether the connection is closed. -/
def connectionField (close : Bool) : List UInt8 × List UInt8 :=
  (bytes "connection", bytes (if close then "close" else "keep-alive"))

def lengthField (size : ℕ) : List UInt8 × List UInt8 :=
  (bytes "content-length", bytes (toString size))

/-- A header in its line. -/
def fieldLine (x : List UInt8 × List UInt8) : List UInt8 := x.1 ++ bytes ": " ++ x.2

theorem connectionLine (close : Bool) : 13 ∉ fieldLine (connectionField close) ∧
    fieldLine (connectionField close) ≠ [] ∧
    readField (fieldLine (connectionField close)) = connectionField close := by
  cases close with
  | false => exact ⟨by decide, by decide, by decide⟩
  | true => exact ⟨by decide, by decide, by decide⟩

/-- The two names are different. -/
theorem reserved_ne : foldCase (bytes "connection") ≠ foldCase (bytes "content-length") := by
  decide

theorem digit_ne {c : UInt8} (h : Foundation.isDigit c = true) : c ≠ 13 ∧ isBlank c = false := by
  revert h
  revert c
  apply forall_byte
  decide +kernel

theorem digits_size (size : ℕ) : ∀ c ∈ bytes (toString size), Foundation.isDigit c = true :=
  isDigit_toString size

theorem lengthLine (size : ℕ) : 13 ∉ fieldLine (lengthField size) ∧
    fieldLine (lengthField size) ≠ [] ∧
    readField (fieldLine (lengthField size)) = lengthField size := by
  have hline : fieldLine (lengthField size) =
      bytes "content-length" ++ 58 :: 32 :: bytes (toString size) := by
    rw [fieldLine, lengthField, List.append_assoc]
    rfl
  refine ⟨?_, ?_, ?_⟩
  · have hname : 13 ∉ bytes "content-length" ++ bytes ": " := by decide
    rw [fieldLine, List.mem_append]
    rintro (hmem | hvalue)
    · exact hname hmem
    · exact (digit_ne (digits_size size 13 hvalue)).1 rfl
  · rw [hline]
    simp
  · obtain ⟨c, digits, heq⟩ := List.exists_cons_of_ne_nil (bytes_toString_ne_nil size)
    have hfirst : isBlank c = false :=
      (digit_ne (isDigit_toString size c (heq ▸ List.mem_cons_self ..))).2
    have hdigits : bytes (toString size) = c :: digits := heq
    rw [hline, readField_colon (by decide), lengthField, hdigits, List.dropWhile_cons_of_pos rfl,
      List.dropWhile_cons_of_neg (by simp [hfirst])]

theorem says_size (size : ℕ) : Says (bytes (toString size)) size :=
  ⟨bytes_toString_ne_nil size, digits_size size, numeral_toString size⟩

/-- The lines behind the headers: the length of the body, if there is one, and the body. -/
def ending (body : List UInt8) : List (List UInt8) :=
  if body = [] then [[], []] else fieldLine (lengthField body.length) :: [] :: textLines body

theorem readFields_ending (body : List UInt8) :
    readFields (ending body) = if body = [] then [] else [lengthField body.length] := by
  unfold ending
  split_ifs
  · rfl
  · rw [readFields_cons (lengthLine _).2.1, (lengthLine _).2.2]
    rfl

/-! ## The lines that the strings of a message bring in -/

/-- The lines in front of the line of the connection and behind it. An empty line ends the headers
there: what stands behind it, the program's own lines included, is not read. -/
structure Framed (front back : List (List UInt8)) (close : Bool) (size : ℕ) : Prop where
  names : (readFields (front ++ back)).Pairwise fun x y => ¬ SameName x y
  connection : if [] ∈ front then
      (∃ x ∈ readFields front, Named "connection" x) ∧
        ∀ x ∈ readFields front, Named "connection" x → (x.2 = bytes "close" ↔ close = true)
    else ∀ x ∈ readFields (front ++ back), ¬ Named "connection" x
  length : ∀ x ∈ readFields (front ++ back), Named "content-length" x →
    Says x.2 size ∧ ([] ∈ front ++ back ∨ size = 0)

theorem sameName_comm {x y : List UInt8 × List UInt8} (h : ¬ SameName x y) : ¬ SameName y x :=
  fun hsame => h (Eq.symm hsame)

/-- The headers of a text that has its own connection line, and perhaps the length. -/
theorem unambiguous_of_perm {fields : List (List UInt8 × List UInt8)} (closed : Prop)
    [Decidable closed] (h : (headerFields text).Perm (connectionField close :: (fields ++
      if closed then [] else [lengthField size]))) :
    Unambiguous close size text ↔ fields.Pairwise (fun x y => ¬ SameName x y) ∧
      (∀ x ∈ fields, ¬ Named "connection" x) ∧
      ∀ x ∈ fields, Named "content-length" x → Says x.2 size ∧ closed := by
  have hmem : ∀ x, x ∈ headerFields text ↔ x = connectionField close ∨ x ∈ fields ∨
      ¬ closed ∧ x = lengthField size := by
    intro x
    rw [h.mem_iff, List.mem_cons, List.mem_append]
    by_cases hclosed : closed <;> simp [hclosed]
  have hpairwise := h.pairwise_iff (R := fun x y => ¬ SameName x y) sameName_comm
  rw [List.pairwise_cons, List.pairwise_append] at hpairwise
  -- the field of the connection is first, and the length last, but neither may be said twice
  constructor
  · intro hsafe
    obtain ⟨hfirst, hfields, -, hlast⟩ := hpairwise.mp hsafe.names
    refine ⟨hfields, ?_, ?_⟩
    · intro x hx hnamed
      exact hfirst x (List.mem_append_left _ hx) (Eq.symm hnamed)
    · intro x hx hnamed
      refine ⟨hsafe.length x ((hmem x).mpr (.inr (.inl hx))) hnamed, ?_⟩
      by_contra hopen
      rw [if_neg hopen] at hlast
      exact hlast x hx _ (List.mem_singleton_self _) hnamed
  · rintro ⟨hfields, hconnection, hlength⟩
    refine ⟨hpairwise.mpr ⟨?_, hfields, ?_, ?_⟩, ⟨_, (hmem _).mpr (.inl rfl), rfl⟩, ?_, ?_⟩
    · intro x hx hsame
      rcases List.mem_append.mp hx with hx | hx
      · exact hconnection x hx (Eq.symm hsame)
      · split_ifs at hx with hclosed
        · cases hx
        · obtain rfl := List.mem_singleton.mp hx
          exact reserved_ne hsame
    · split_ifs
      · exact .nil
      · exact List.pairwise_singleton ..
    · intro x hx y hy hsame
      split_ifs at hy with hclosed
      · cases hy
      · obtain rfl := List.mem_singleton.mp hy
        exact hclosed (hlength x hx hsame).2
    · intro x hx hnamed
      rcases (hmem x).mp hx with rfl | hx | ⟨-, rfl⟩
      · cases close <;> decide
      · exact absurd hnamed (hconnection x hx)
      · exact absurd (Eq.symm hnamed) reserved_ne
    · intro x hx hnamed
      rcases (hmem x).mp hx with rfl | hx | ⟨-, rfl⟩
      · exact absurd hnamed reserved_ne
      · exact (hlength x hx hnamed).1
      · exact says_size size

/-- **The lines of a text** decide whether it is unambiguous. -/
theorem unambiguous_iff {body : List UInt8} (h : (textLines text).tail =
    front ++ fieldLine (connectionField close) :: (back ++ ending body)) :
    Unambiguous close body.length text ↔ Framed front back close body.length := by
  obtain ⟨-, hne, hread⟩ := connectionLine close
  have hfields : headerFields text =
      readFields (front ++ fieldLine (connectionField close) :: (back ++ ending body)) :=
    congrArg readFields h
  by_cases hfront : [] ∈ front
  · -- the headers end in front of the connection
    have hown := readFields_append_of_mem hfront back
    rw [readFields_append_of_mem hfront] at hfields
    constructor
    · rintro ⟨hnames, hconnection, hclose, hlength⟩
      rw [hfields] at hnames hconnection hclose hlength
      refine ⟨hown ▸ hnames, ?_, ?_⟩
      · rw [if_pos hfront]
        exact ⟨hconnection, hclose⟩
      · intro x hx hnamed
        rw [hown] at hx
        exact ⟨hlength x hx hnamed, .inl (List.mem_append_left _ hfront)⟩
    · rintro ⟨hnames, hconnection, hlength⟩
      rw [if_pos hfront] at hconnection
      rw [hown] at hnames hlength
      refine ⟨?_, ?_, ?_, ?_⟩ <;> rw [hfields]
      · exact hnames
      · exact hconnection.1
      · exact hconnection.2
      · exact fun x hx hnamed => (hlength x hx hnamed).1
  · have hclosed : [] ∈ front ++ back ↔ [] ∈ back := by
      rw [List.mem_append, or_iff_right hfront]
    have hrest : readFields (back ++ ending body) = readFields back ++
        if [] ∈ front ++ back ∨ body.length = 0 then [] else [lengthField body.length] := by
      by_cases hback : [] ∈ back
      · rw [readFields_append_of_mem hback, if_pos (.inl (hclosed.mpr hback)), List.append_nil]
      · rw [readFields_append hback, readFields_ending]
        simp only [hclosed, hback, false_or, List.length_eq_zero_iff]
    -- the connection stands between the two parts; the order does not matter here
    have hperm : (headerFields text).Perm (connectionField close ::
        (readFields (front ++ back) ++
          if [] ∈ front ++ back ∨ body.length = 0 then [] else [lengthField body.length])) := by
      rw [hfields, readFields_append hfront, readFields_cons hne, hread, hrest,
        readFields_append hfront, List.append_assoc]
      exact List.perm_middle
    rw [unambiguous_of_perm _ hperm]
    constructor
    · rintro ⟨hnames, hconnection, hlength⟩
      exact ⟨hnames, by rwa [if_neg hfront], hlength⟩
    · rintro ⟨hnames, hconnection, hlength⟩
      rw [if_neg hfront] at hconnection
      exact ⟨hnames, hconnection, hlength⟩

/-! ## The lines of a message -/

theorem flatMap_ite {ι α : Type*} (p : ι → Prop) [DecidablePred p] (f : ι → List α)
    (is : List ι) : is.flatMap (fun i => if p i then [] else f i) =
      (is.filter fun i => ¬ p i).flatMap f := by
  induction is with
  | nil => rfl
  | cons i is ih =>
    rw [List.flatMap_cons, ih]
    by_cases h : p i <;> simp [h]

/-- The text behind the headers. -/
def endText (body : List UInt8) : List UInt8 :=
  if body = [] then bytes "\r\n"
  else fieldLine (lengthField body.length) ++ bytes "\r\n\r\n" ++ body

theorem textLines_endText (body : List UInt8) : textLines (endText body) = ending body := by
  unfold endText ending
  split_ifs
  · rfl
  · have hbreaks : fieldLine (lengthField body.length) ++ bytes "\r\n\r\n" ++ body =
        fieldLine (lengthField body.length) ++ 13 :: 10 :: ([] ++ 13 :: 10 :: body) := by
      rw [List.append_assoc]
      rfl
    rw [hbreaks, textLines_append, textLines_append, textLines_of_not_mem (lengthLine _).1]
    rfl

/-- The first line of a request. -/
def HttpMessage.startLine (request : HttpMessage) : List UInt8 :=
  bytes (httpMethodToString request.method) ++ bytes " " ++ request.path ++
    (if request.query = [] then [] else bytes "?") ++ request.query ++
    (if request.fragment = [] then [] else bytes "#") ++ request.fragment ++
    bytes " HTTP/" ++ bytes (toString (request.version.toNat >>> 4)) ++ bytes "." ++
    bytes (toString (request.version.toNat &&& 0x0F))

/-- The first line of a response. -/
def HttpResponse.startLine (response : HttpResponse) : List UInt8 :=
  bytes "HTTP/" ++ bytes (toString (response.version.toNat >>> 4)) ++ bytes "." ++
    bytes (toString (response.version.toNat &&& 0x0F)) ++ bytes " " ++
    bytes (toString response.status.toNat) ++ bytes " " ++
    (if response.reason = [] then bytes (httpStatusToString response.status)
      else response.reason)

/-- The headers of the map that a request prints. -/
def HttpMessage.written (request : HttpMessage) : List (List UInt8 × List UInt8) :=
  request.headers.filter fun x => ¬ strcasecmp x.1 (bytes "connection") = true

/-- The headers of the map that a response prints. -/
def HttpResponse.written (response : HttpResponse) : List (List UInt8 × List UInt8) :=
  response.headers.filter fun x => ¬ x.1 = bytes "connection"

/-- The lines of headers that are printed with this text behind the name. -/
def mapLines (colon : List UInt8) (headers : List (List UInt8 × List UInt8)) :
    List (List UInt8) :=
  headers.flatMap fun x => textLines (x.1 ++ colon ++ x.2)

theorem textLines_flatMap (colon : List UInt8) (headers : List (List UInt8 × List UInt8))
    (rest : List UInt8) :
    textLines (headers.flatMap (fun x => x.1 ++ colon ++ x.2 ++ [13, 10]) ++ rest) =
      mapLines colon headers ++ textLines rest :=
  pieces_flatMap (by decide) _ headers rest

/-- The lines that the strings of a request bring in are framed. -/
def HttpMessage.Framed (request : HttpMessage) : Prop :=
  Http.Framed (textLines request.startLine).tail (mapLines (bytes ":") request.written)
    request.close request.body.length

/-- The same for a response, which prints the connection behind its headers. -/
def HttpResponse.Framed (response : HttpResponse) : Prop :=
  Http.Framed ((textLines response.startLine).tail ++ mapLines (bytes ": ") response.written) []
    response.close response.body.length

theorem crlf_append (rest : List UInt8) : bytes "\r\n" ++ rest = 13 :: 10 :: rest := rfl

theorem connection_text :
    bytes "connection: " = bytes "connection" ++ bytes ": " := by
  decide

theorem contentLength_text :
    bytes "content-length: " = bytes "content-length" ++ bytes ": " := by
  decide

theorem HttpMessage.dump_lines (request : HttpMessage) : (textLines request.dump).tail =
    (textLines request.startLine).tail ++ fieldLine (connectionField request.close) ::
      (mapLines (bytes ":") request.written ++ ending request.body) := by
  have hheaders : request.headers.flatMap dumpHeader = request.written.flatMap fun x =>
      x.1 ++ bytes ":" ++ x.2 ++ [13, 10] := flatMap_ite _ _ _
  have hdump : request.dump = request.startLine ++ (bytes "\r\n" ++
      (fieldLine (connectionField request.close) ++ (bytes "\r\n" ++
        (request.headers.flatMap dumpHeader ++ endText request.body)))) := by
    simp only [HttpMessage.dump, HttpMessage.startLine, fieldLine, connectionField, endText,
      lengthField, connection_text, contentLength_text, List.append_assoc]
  rw [hheaders, crlf_append, crlf_append] at hdump
  rw [hdump, textLines_append request.startLine, textLines_append (fieldLine _),
    textLines_flatMap, textLines_of_not_mem (connectionLine _).1, textLines_endText,
    List.tail_append_of_ne_nil (textLines_ne_nil _)]
  rfl

theorem HttpResponse.dump_lines (response : HttpResponse) : (textLines response.dump).tail =
    (textLines response.startLine).tail ++ mapLines (bytes ": ") response.written ++
      fieldLine (connectionField response.close) :: ([] ++ ending response.body) := by
  have hheaders : response.headers.flatMap HttpResponse.dumpHeader = response.written.flatMap
      fun x => x.1 ++ bytes ": " ++ x.2 ++ [13, 10] := flatMap_ite _ _ _
  have hdump : response.dump = response.startLine ++ (bytes "\r\n" ++
      (response.headers.flatMap HttpResponse.dumpHeader ++
        (fieldLine (connectionField response.close) ++ (bytes "\r\n" ++
          endText response.body)))) := by
    simp only [HttpResponse.dump, HttpResponse.startLine, fieldLine, connectionField, endText,
      lengthField, connection_text, contentLength_text, List.append_assoc]
  rw [hheaders, crlf_append, crlf_append] at hdump
  rw [hdump, textLines_append response.startLine, textLines_flatMap, textLines_append (fieldLine _),
    textLines_of_not_mem (connectionLine _).1, textLines_endText,
    List.tail_append_of_ne_nil (textLines_ne_nil _), List.append_assoc]
  rfl

/-! ## The messages whose text is unambiguous -/

/-- A header of the map is printed by both kinds of messages or by neither. -/
def Alike (headers : List (List UInt8 × List UInt8)) : Prop :=
  ∀ x ∈ headers, dumpHeader x = [] ↔ HttpResponse.dumpHeader x = []

/-- **The text of a message** is unambiguous exactly if the lines that its strings bring in are
framed, and the two kinds of messages treat a map alike exactly if the name of the connection is
spelt in it as it is printed. -/
theorem framing_iff (request : HttpMessage) (response : HttpResponse)
    (headers : List (List UInt8 × List UInt8)) :
    (Unambiguous request.close request.body.length request.dump ↔ request.Framed) ∧
    (Unambiguous response.close response.body.length response.dump ↔ response.Framed) ∧
    (Alike headers ↔ ∀ x ∈ headers, strcasecmp x.1 (bytes "connection") = true →
      x.1 = bytes "connection") := by
  refine ⟨unambiguous_iff request.dump_lines, unambiguous_iff response.dump_lines, ?_⟩
  apply forall₂_congr
  intro x _
  by_cases hexact : x.1 = bytes "connection"
  · have hcase : strcasecmp x.1 (bytes "connection") = true := by
      rw [hexact]
      decide
    rw [dumpHeader, if_pos hcase, HttpResponse.dumpHeader, if_pos hexact]
    exact iff_of_true Iff.rfl fun _ => hexact
  · simp [dumpHeader, HttpResponse.dumpHeader, hexact, show bytes ":" = [58] from rfl,
      show bytes ": " = [58, 32] from rfl]

/-- Two lengths of one body, two connection lines, and a header that only the response prints. -/
theorem framing_ambiguous :
    ¬ Unambiguous true 1 ({ body := [120], headers := [(bytes "Content-Length", bytes "5")] } :
      HttpMessage).dump ∧
    ¬ Unambiguous true 0 ({ headers := [(bytes "Connection", bytes "keep-alive")] } :
      HttpResponse).dump ∧
    ¬ Alike [(bytes "Connection", bytes "keep-alive")] := by
  refine ⟨fun h => ?_, fun h => ?_, fun h => ?_⟩
  · exact absurd h.names (by decide)
  · exact absurd h.names (by decide)
  · exact absurd (h _ (List.mem_singleton_self _)) (by decide)

/-! ## Strings without line breaks -/

/-- A header whose name is a name and that takes one line. -/
def Plain (x : List UInt8 × List UInt8) : Prop := 58 ∉ x.1 ∧ 13 ∉ x.1 ∧ 13 ∉ x.2

section Plain

variable {headers : List (List UInt8 × List UInt8)} {blank : List UInt8}

theorem mapLines_plain (hblank : 13 ∉ blank) (hplain : ∀ x ∈ headers, Plain x) :
    mapLines (58 :: blank) headers = headers.map fun x => x.1 ++ 58 :: blank ++ x.2 := by
  rw [mapLines, List.map_eq_flatMap]
  apply List.flatMap_congr
  intro x hx
  obtain ⟨-, hname, hvalue⟩ := hplain x hx
  apply textLines_of_not_mem
  simp [hname, hvalue, hblank]

theorem not_mem_mapLines (hblank : 13 ∉ blank) (hplain : ∀ x ∈ headers, Plain x) :
    [] ∉ mapLines (58 :: blank) headers := by
  rw [mapLines_plain hblank hplain, List.mem_map]
  rintro ⟨x, -, hline⟩
  simp at hline

/-- The headers of a map are read as they are, without the blanks in front of their values. -/
theorem readFields_mapLines (hblank : 13 ∉ blank ∧ ∀ c ∈ blank, isBlank c = true)
    (hplain : ∀ x ∈ headers, Plain x) :
    readFields (mapLines (58 :: blank) headers) =
      headers.map fun x => (x.1, x.2.dropWhile isBlank) := by
  rw [readFields_of_not_mem (not_mem_mapLines hblank.1 hplain), mapLines_plain hblank.1 hplain,
    List.map_map]
  apply List.map_congr_left
  intro x hx
  rw [Function.comp_apply, List.append_assoc, List.cons_append, readField_colon (hplain x hx).1,
    List.dropWhile_append_of_pos hblank.2]

/-- The headers of a map, where nothing else comes from the strings of the message. -/
theorem framed_iff_of_plain (blank : List UInt8)
    (hblank : 13 ∉ blank ∧ ∀ c ∈ blank, isBlank c = true)
    (hplain : ∀ x ∈ headers, Plain x) (hmap : headers.Pairwise Before)
    (hlines : front ++ back = mapLines (58 :: blank) headers) :
    Framed front back close size ↔ (∀ x ∈ headers, ¬ Named "connection" x) ∧
      ∀ x ∈ headers, Named "content-length" x → Says (x.2.dropWhile isBlank) size ∧ size = 0 := by
  have hempty : [] ∉ front ++ back := hlines ▸ not_mem_mapLines hblank.1 hplain
  have hfields : readFields (front ++ back) = headers.map fun x => (x.1, x.2.dropWhile isBlank) :=
    hlines ▸ readFields_mapLines hblank hplain
  have hnames : (readFields (front ++ back)).Pairwise fun x y => ¬ SameName x y := by
    rw [hfields, List.pairwise_map]
    exact hmap.imp fun hbefore => ne_of_lt hbefore
  have hfront : [] ∉ front := fun hmem => hempty (List.mem_append_left _ hmem)
  constructor
  · rintro ⟨-, hconnection, hlength⟩
    rw [if_neg hfront, hfields, List.forall_mem_map] at hconnection
    rw [hfields, List.forall_mem_map] at hlength
    refine ⟨hconnection, fun x hx hnamed => ?_⟩
    obtain ⟨hstated, hsize⟩ := hlength x hx hnamed
    exact ⟨hstated, hsize.resolve_left hempty⟩
  · rintro ⟨hconnection, hlength⟩
    refine ⟨hnames, ?_, ?_⟩
    · rw [if_neg hfront, hfields, List.forall_mem_map]
      exact hconnection
    · rw [hfields, List.forall_mem_map]
      exact fun x hx hnamed => ⟨(hlength x hx hnamed).1, .inr (hlength x hx hnamed).2⟩

end Plain

/-- A request of plain strings: only a length in its map is in the way, unless it says that there is
no body and there is none. -/
theorem framed_request_iff {request : HttpMessage} (hstart : 13 ∉ request.startLine)
    (hplain : ∀ x ∈ request.headers, Plain x) (hmap : request.headers.Pairwise Before) :
    request.Framed ↔ ∀ x ∈ request.headers, Named "content-length" x →
      Says (x.2.dropWhile isBlank) 0 ∧ request.body = [] := by
  have hwritten : ∀ x, x ∈ request.written ↔ x ∈ request.headers ∧ ¬ Named "connection" x := by
    intro x
    simp [HttpMessage.written, strcasecmp_eq, Named]
  rw [HttpMessage.Framed, textLines_of_not_mem hstart,
    framed_iff_of_plain [] (by simp) (fun x hx => hplain x ((hwritten x).mp hx).1)
      (hmap.filter _) rfl,
    and_iff_right fun x hx => ((hwritten x).mp hx).2]
  constructor
  · intro h x hx hnamed
    have hother : ¬ Named "connection" x := fun hconnection =>
      reserved_ne (hconnection.symm.trans hnamed)
    obtain ⟨hstated, hsize⟩ := h x ((hwritten x).mpr ⟨hx, hother⟩) hnamed
    exact ⟨hsize ▸ hstated, List.length_eq_zero_iff.mp hsize⟩
  · intro h x hx hnamed
    obtain ⟨hstated, hbody⟩ := h x ((hwritten x).mp hx).1 hnamed
    have hsize : request.body.length = 0 := List.length_eq_zero_iff.mpr hbody
    exact ⟨hsize.symm ▸ hstated, hsize⟩

/-- A response of plain strings: the name of the connection must be spelt in the map as the response
spells it, too. -/
theorem framed_response_iff {response : HttpResponse} (hstart : 13 ∉ response.startLine)
    (hplain : ∀ x ∈ response.headers, Plain x) (hmap : response.headers.Pairwise Before) :
    response.Framed ↔
      (∀ x ∈ response.headers, Named "connection" x → x.1 = bytes "connection") ∧
      ∀ x ∈ response.headers, Named "content-length" x →
        Says (x.2.dropWhile isBlank) 0 ∧ response.body = [] := by
  have hwritten : ∀ x, x ∈ response.written ↔
      x ∈ response.headers ∧ ¬ x.1 = bytes "connection" := by
    intro x
    simp [HttpResponse.written]
  rw [HttpResponse.Framed, textLines_of_not_mem hstart,
    framed_iff_of_plain [32] (by decide +kernel) (fun x hx => hplain x ((hwritten x).mp hx).1)
      (hmap.filter _) (by rw [List.append_nil]; rfl)]
  constructor
  · rintro ⟨hconnection, hlength⟩
    refine ⟨fun x hx hnamed => ?_, fun x hx hnamed => ?_⟩
    · by_contra hspelt
      exact hconnection x ((hwritten x).mpr ⟨hx, hspelt⟩) hnamed
    · have hspelt : ¬ x.1 = bytes "connection" := fun heq =>
        reserved_ne ((congrArg foldCase heq).symm.trans hnamed)
      obtain ⟨hstated, hsize⟩ := hlength x ((hwritten x).mpr ⟨hx, hspelt⟩) hnamed
      exact ⟨hsize ▸ hstated, List.length_eq_zero_iff.mp hsize⟩
  · rintro ⟨hconnection, hlength⟩
    refine ⟨fun x hx hnamed => ?_, fun x hx hnamed => ?_⟩
    · obtain ⟨hx, hspelt⟩ := (hwritten x).mp hx
      exact hspelt (hconnection x hx hnamed)
    · obtain ⟨hstated, hbody⟩ := hlength x ((hwritten x).mp hx).1 hnamed
      have hsize : response.body.length = 0 := List.length_eq_zero_iff.mpr hbody
      exact ⟨hsize.symm ▸ hstated, hsize⟩

end Http

end Sylar
