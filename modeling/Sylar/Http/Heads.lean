import Sylar.Http.ClientGrammar
import Sylar.Http.Dump

/-!
# What the parser records of a response

Behind the safe edges of the machine stands what its actions do: along the name of a header nothing
is done but to mark its start, the colon measures it, the marks of the blanks are overwritten by
that of the value, and the end of the line records the field. So the parser makes of a head the
version, the number of the status, the reason and one header for each line.

## Main definitions

* `Moves`: the machine goes along a text, whatever follows it
* `FieldEdges`: the actions along the edges of a line
* `ResponseHead.response`: the response of a head

## Main results

* `moves_line`: a line is recorded as one header
* `execute_head`: a fresh parser makes of a head its response, in one call
-/

namespace Sylar

open Foundation

namespace Http

-- `decide` runs through a list, and not through all bytes
attribute [local instance (high)] List.decidableBAll Option.decidableForallMem

/-- A line that does not ask for chunks, and leaves no doubt. -/
structure Line.Ordinary (line : Line) : Prop where
  regular : line.Regular
  unchunked : line.name.map toLower ≠ bytes "transfer-encoding"
  leaves : ¬ line.Leaves

/-- The headers of lines, one after the other. -/
def HttpResponse.record (response : HttpResponse) (lines : List Line) : HttpResponse :=
  { response with
    headers := lines.foldl (fun headers line => setHeader line.name line.value headers)
      response.headers }

namespace HttpResponseParser

variable {buffer text text' rest : List UInt8} {s s' s'' : HttpResponseParser}
  {cs cs' cs'' p : ℕ} {c : UInt8} {b b' : Bool} {actions : List ClientAction}

/-! ## Moves -/

/-- The machine goes along a text from the byte `p` on, whatever follows the text. -/
def Moves (buffer : List UInt8) (s : HttpResponseParser) (cs p : ℕ) (text : List UInt8)
    (s' : HttpResponseParser) (cs' : ℕ) : Prop :=
  ∀ rest, s.exec buffer cs p (text ++ rest) = s'.exec buffer cs' (p + text.length) rest

theorem Moves.nil : Moves buffer s cs p [] s cs := fun _ => rfl

theorem Moves.cons (hnext : next cs c = some (cs', actions)) (hdone : .done ∉ actions)
    (hact : actions.foldlM (act buffer p) s = some s')
    (h : Moves buffer s' cs' (p + 1) text s'' cs'') :
    Moves buffer s cs p (c :: text) s'' cs'' := by
  intro rest
  rw [List.cons_append, exec]
  simp only [hnext, hact, Option.bind_some, if_neg hdone]
  rw [h rest, List.length_cons, Nat.add_assoc, Nat.add_comm 1]

theorem Moves.append (h : Moves buffer s cs p text s' cs')
    (h' : Moves buffer s' cs' (p + text.length) text' s'' cs'') :
    Moves buffer s cs p (text ++ text') s'' cs'' := by
  intro rest
  rw [List.append_assoc, h, h', List.length_append, Nat.add_assoc]

/-! ## Edges and their actions -/

section Edges

variable {P : ℕ → Bool} {ok : UInt8 → Bool} {R : ℕ → ClientEdge → Bool}

/-- The edge for a byte of the class, with its actions. -/
theorem next_of_edgesBy (h : edgesBy every P ok R = true) (hcs : P cs = true) (hlt : cs < 120)
    (hc : ok c = true) :
    ∃ e : ClientEdge, next cs c = some (e.target, e.actions) ∧ R cs e = true := by
  have hlen : cs < clientTable.length := Nat.lt_of_lt_of_eq (by omega) (rfl : 124 = _)
  have hrow := List.all_eq_true.mp h (clientTable[cs], cs)
    (List.mem_zipIdx_iff_getElem?.mpr (List.getElem?_eq_getElem hlen))
  simp only [hcs, Bool.not_true, Bool.false_or] at hrow
  obtain ⟨e, hfind, -, hR⟩ := of_rowEdges hrow (Nat.zero_le _) hc
  refine ⟨e, ?_, hR⟩
  rw [next, List.getD_eq_getElem?_getD, List.getElem?_eq_getElem hlen, Option.getD_some, hfind,
    Option.map_some]

variable (buffer) in
/-- A text along edges without actions, within a set of states, and to where it is tracked. -/
theorem moves_quiet (h : edgesBy every P ok (fun _ e => P e.target && e.actions = []) = true)
    (hlt : ∀ cs, P cs = true → cs < 120) (hcs : P cs = true) (htext : ∀ c ∈ text, ok c = true) :
    ∃ cs', Moves buffer s cs p text s cs' ∧ P cs' = true ∧
      ∀ b y, track every (cs, b) text = some y → y.1 = cs' := by
  induction text generalizing cs p with
  | nil =>
    refine ⟨cs, .nil, hcs, fun b y hy => ?_⟩
    obtain rfl := Option.some.inj hy
    rfl
  | cons c text ih =>
    obtain ⟨e, hnext, hR⟩ := next_of_edgesBy h hcs (hlt cs hcs) (htext c (by simp))
    obtain ⟨hcs₁, hactions⟩ := Bool.and_eq_true_iff.mp hR
    rw [decide_eq_true_eq] at hactions
    obtain ⟨cs', hmoves, hcs', htrack⟩ :=
      ih (p := p + 1) hcs₁ fun d hd => htext d (List.mem_cons_of_mem _ hd)
    refine ⟨cs', .cons hnext ?_ ?_ hmoves, hcs', fun b y hy => ?_⟩
    · rw [hactions]
      exact List.not_mem_nil
    · rw [hactions]
      rfl
    · obtain ⟨z, hadvance, hrest⟩ := Option.bind_eq_some_iff.mp hy
      obtain ⟨cs₁, acts, -, hnext', -, -, -, -, rfl⟩ := advance_eq_some.mp hadvance
      obtain ⟨rfl, rfl⟩ := Prod.mk.inj (Option.some.inj (hnext.symm.trans hnext'))
      exact htrack _ y hrest

end Edges

/-- The states in which a line starts behind one that leaves no doubt. -/
def atLine (cs : ℕ) : Bool := cs = 20 || cs = 43

/-- The states within a value that does not ask for chunks. -/
def inPlain (cs : ℕ) : Bool := cs = 23 || (96 ≤ cs && cs ≤ 100) || cs = 119

/-- **The actions along a line**, by what its edges read. -/
structure FieldEdges : Prop where
  /-- The first byte of a name. -/
  first : edgesBy every atLine isToken (fun _ e => inName e.target &&
    (e.actions = [.start_field] || e.actions = [.write_connection_close, .start_field])) = true
  name : edgesBy every inName isToken (fun _ e => inName e.target && e.actions = []) = true
  colon : edgesBy every inName (· = 58) (fun cs e => inBlank e.target &&
    e.actions = [.write_field] && (e.target ≠ 61 || cs = 60) &&
    (e.target = 22 || (label cs).any watched.contains)) = true
  blank : edgesBy every inBlank isSpacing (fun cs e =>
    e.target = cs && e.actions = [.start_value]) = true
  /-- The first byte of a value. -/
  start : edgesBy every (fun cs => inBlank cs && cs ≠ 61) (fun c => isText c && !isSpacing c)
    (fun _ e => inPlain e.target && e.actions = [.start_value]) = true
  value : edgesBy every inPlain isText (fun _ e => inPlain e.target && e.actions = []) = true
  /-- The end of a line, behind a value and where there is none. -/
  stop : edgesBy every inPlain (· = 13) (fun _ e => (e.target = 24 || e.target = 88) &&
    (e.actions = [.write_value] || e.actions = [.write_content_len, .write_value])) = true
  empty : edgesBy every (· = 22) (· = 13) (fun _ e => e.target = 24 &&
    e.actions = [.start_value, .write_value]) = true

theorem fieldEdges : FieldEdges where
  first := by decide +kernel
  name := by decide +kernel
  colon := by decide +kernel
  blank := by decide +kernel
  start := by decide +kernel
  value := by decide +kernel
  stop := by decide +kernel
  empty := by decide +kernel

/-! ## Lines -/

theorem inLine_of_atLine (h : atLine cs = true) : inLine cs = true := by
  simp only [atLine, inLine, Bool.or_eq_true, decide_eq_true_eq] at h ⊢
  omega

theorem lt_of_atLine (h : atLine cs = true) : cs < 120 := lt_of_inLine (inLine_of_atLine h)

theorem lt_of_inPlain (h : inPlain cs = true) : cs < 120 := by
  simp only [inPlain, Bool.or_eq_true, Bool.and_eq_true, decide_eq_true_eq] at h
  omega

variable (buffer) in
/-- **A name** is marked at its start. -/
theorem moves_name {name : List UInt8} (hcs : atLine cs = true) (hne : name ≠ [])
    (hname : ∀ c ∈ name, isToken c = true) :
    ∃ cs' close, Moves buffer s cs p name
        (s.update fun x => { x with close := close, field_start := p }) cs' ∧
      inName cs' = true ∧ ∀ text ∈ label cs', text = name.map toLower := by
  obtain ⟨cs', htrack, hcs', hlabel⟩ :=
    track_name (b := true) (inLine_of_atLine hcs) hne hname
  cases name with
  | nil => exact absurd rfl hne
  | cons c name =>
    obtain ⟨e, hnext, hR⟩ :=
      next_of_edgesBy fieldEdges.first hcs (lt_of_atLine hcs) (hname c (by simp))
    obtain ⟨hcs₁, hactions⟩ := Bool.and_eq_true_iff.mp hR
    obtain ⟨y, hadvance, hrest⟩ := Option.bind_eq_some_iff.mp htrack
    obtain ⟨cs₁, acts, -, hnext', -, -, -, -, rfl⟩ := advance_eq_some.mp hadvance
    obtain ⟨rfl, rfl⟩ := Prod.mk.inj (Option.some.inj (hnext.symm.trans hnext'))
    have hmoves : ∀ t, Moves buffer t e.target (p + 1) name t cs' := by
      intro t
      obtain ⟨cs₂, hmoves, -, heq⟩ := moves_quiet buffer (s := t) (p := p + 1)
        fieldEdges.name (fun _ h => lt_of_inName h) hcs₁
        fun d hd => hname d (List.mem_cons_of_mem _ hd)
      obtain rfl : cs' = cs₂ := heq _ _ hrest
      exact hmoves
    -- behind `Connection: close` the first byte of a line also sets the flag
    rw [Bool.or_eq_true, decide_eq_true_eq, decide_eq_true_eq] at hactions
    rcases hactions with hactions | hactions
    · refine ⟨cs', s.parser.close, .cons hnext ?_ ?_ (hmoves _), hcs', hlabel⟩
      · simp [hactions]
      · rw [hactions]
        rfl
    · refine ⟨cs', true, .cons hnext ?_ ?_ (hmoves _), hcs', hlabel⟩
      · simp [hactions]
      · rw [hactions]
        rfl

variable (buffer) in
/-- The blanks in front of a value, where the mark is of no use. -/
theorem moves_blanks (hcs : inBlank cs = true) (htext : ∀ c ∈ text, isSpacing c = true) :
    ∃ m, Moves buffer s cs p text (s.update ({ · with mark := m })) cs := by
  induction text generalizing s p with
  | nil => exact ⟨s.parser.mark, .nil⟩
  | cons c text ih =>
    obtain ⟨e, hnext, hR⟩ :=
      next_of_edgesBy fieldEdges.blank hcs (lt_of_inBlank hcs) (htext c (by simp))
    rw [Bool.and_eq_true, decide_eq_true_eq, decide_eq_true_eq] at hR
    obtain ⟨rfl, hactions⟩ := hR
    obtain ⟨m, hmoves⟩ := ih (s := s.update ({ · with mark := p })) (p := p + 1)
      fun d hd => htext d (List.mem_cons_of_mem _ hd)
    refine ⟨m, .cons hnext ?_ ?_ hmoves⟩
    · simp [hactions]
    · rw [hactions]
      rfl

variable (buffer) in
/-- The name of a line with its colon and its blanks: the name is measured. -/
theorem moves_field {line : Line} (h : line.Regular) (hcs : atLine cs = true)
    (hplain : line.name.map toLower ≠ bytes "transfer-encoding") :
    ∃ cs' close m, Moves buffer s cs p (line.name ++ 58 :: line.blank)
        (s.update fun x => { x with
          close := close, field_start := p, field_len := line.name.length, mark := m }) cs' ∧
      (inBlank cs' && cs' ≠ 61) = true ∧ (cs' ≠ 22 → line.name.map toLower ∈ watched) := by
  obtain ⟨cs₁, close, hname, hcs₁, hlabel⟩ :=
    moves_name buffer (s := s) (p := p) hcs h.named h.name
  obtain ⟨e, hnext, hR⟩ := next_of_edgesBy (c := 58) fieldEdges.colon hcs₁ (lt_of_inName hcs₁) rfl
  simp only [Bool.and_eq_true, Bool.or_eq_true, decide_eq_true_eq] at hR
  obtain ⟨⟨⟨hcs', hactions⟩, hchunks⟩, hwatched⟩ := hR
  obtain ⟨m, hblanks⟩ := moves_blanks buffer
    (s := s.update fun x => { x with
      close := close, field_start := p, field_len := line.name.length })
    (p := p + line.name.length + 1) hcs' h.blank
  refine ⟨e.target, close, m, hname.append (.cons hnext ?_ ?_ hblanks), ?_, fun hne => ?_⟩
  · simp [hactions]
  · have hlen : len p (p + line.name.length) = line.name.length := by
      rw [len, if_pos (Nat.le_add_right ..), Nat.add_sub_cancel_left]
    rw [hactions]
    simp only [List.foldlM_cons, act, update, hlen]
    rfl
  · -- only the name itself leads to where its value is looked at
    rw [Bool.and_eq_true, decide_eq_true_eq]
    refine ⟨hcs', fun heq => hplain ?_⟩
    obtain rfl := hchunks.resolve_left fun hne => hne heq
    exact (hlabel _ rfl).symm
  · obtain ⟨text, htext, hmem⟩ := (Option.any_eq_true ..).mp (hwatched.resolve_left hne)
    rw [← hlabel text htext]
    exact List.contains_iff_mem.mp hmem

theorem str_append (text rest : List UInt8) : str (text ++ rest) text.length = some text := by
  rw [str, if_pos (by rw [List.length_append]; omega), List.take_left]

theorem len_add (p n : ℕ) : len p (p + n) = n := by
  rw [len, if_pos (Nat.le_add_right ..), Nat.add_sub_cancel_left]

/-- The parser behind a value from the byte `p` on. -/
def recorded (s : HttpResponseParser) (p : ℕ) (n : Int) (line : Line) : HttpResponseParser where
  parser := { s.parser with mark := p, content_len := n }
  data := { s.data with headers := setHeader line.name line.value s.data.headers }
  error := s.error

/-- The header that is recorded at the end of its value. -/
theorem act_write_value {line : Line} (hne : line.name ≠ [])
    (hname : buffer.drop s.parser.field_start = line.name ++ rest)
    (hlen : s.parser.field_len = line.name.length)
    (hvalue : buffer.drop p = line.value ++ text) (n : Int) :
    act buffer (p + line.value.length) (s.update fun x => { x with mark := p, content_len := n })
      .write_value = some (s.recorded p n line) := by
  have hpos : line.name.length ≠ 0 := List.length_eq_zero_iff.not.mpr hne
  simp only [act, onResponseHttpField, update, hlen, hname, hvalue, len_add, str_append,
    if_neg hpos, Option.bind_some, Option.map_some, recorded]

theorem next_feed : next 24 10 = some (20, []) ∧ next 88 10 = some (43, []) := by
  decide

/-- **The value and the end of its line**: the header is recorded. -/
theorem moves_value {line : Line} (h : line.Regular) (hcs : (inBlank cs && cs ≠ 61) = true)
    (hblank : line.value = [] → cs = 22)
    (hname : buffer.drop s.parser.field_start = line.name ++ rest)
    (hlen : s.parser.field_len = line.name.length)
    (hvalue : buffer.drop p = line.value ++ text) :
    ∃ cs' n, Moves buffer s cs p (line.value ++ [13, 10]) (s.recorded p n line) cs' ∧
      atLine cs' = true := by
  have hwrite := act_write_value h.named hname hlen hvalue
  cases hcase : line.value with
  -- an empty value: the mark and the end are at the same byte
  | nil =>
    rw [hcase] at hwrite
    obtain rfl := hblank hcase
    obtain ⟨e, hnext, hR⟩ := next_of_edgesBy (c := 13) fieldEdges.empty (decide_eq_true rfl)
      (by decide) rfl
    rw [Bool.and_eq_true, decide_eq_true_eq, decide_eq_true_eq] at hR
    obtain ⟨htarget, hactions⟩ := hR
    rw [htarget] at hnext
    refine ⟨20, s.parser.content_len, .cons hnext ?_ ?_ (.cons next_feed.1 (by simp) rfl .nil), rfl⟩
    · simp [hactions]
    · rw [hactions]
      exact congrArg (Option.bind · some) (hwrite s.parser.content_len)
  | cons c value =>
    rw [hcase] at hwrite
    have hc : (isText c && !isSpacing c) = true := by
      rw [h.value c (by simp [hcase]), h.head c (by simp [hcase])]
      rfl
    have hlt : cs < 120 := lt_of_inBlank (Bool.and_eq_true_iff.mp hcs).1
    obtain ⟨e, hnext, hR⟩ := next_of_edgesBy fieldEdges.start hcs hlt hc
    rw [Bool.and_eq_true, decide_eq_true_eq] at hR
    obtain ⟨hcs₁, hactions⟩ := hR
    obtain ⟨cs₂, hrest, hcs₂, -⟩ := moves_quiet buffer
      (s := s.update ({ · with mark := p })) (p := p + 1) fieldEdges.value
      (fun _ h => lt_of_inPlain h) hcs₁
      fun d hd => h.value d (by rw [hcase]; exact List.mem_cons_of_mem _ hd)
    obtain ⟨e', hnext', hR'⟩ := next_of_edgesBy (c := 13) fieldEdges.stop hcs₂
      (lt_of_inPlain hcs₂) rfl
    simp only [Bool.and_eq_true, Bool.or_eq_true, decide_eq_true_eq] at hR'
    obtain ⟨hcs₃, hactions'⟩ := hR'
    have hp : p + 1 + value.length = p + (c :: value).length := by
      rw [List.length_cons]
      omega
    -- a length is taken over into the parser, besides
    have hend : ∃ n, e'.actions.foldlM (act buffer (p + 1 + value.length))
        (s.update ({ · with mark := p })) = some (s.recorded p n line) := by
      rw [hp]
      rcases hactions' with hactions' | hactions'
      · rw [hactions']
        exact ⟨s.parser.content_len, congrArg (Option.bind · some) (hwrite s.parser.content_len)⟩
      · rw [hactions']
        exact ⟨_, congrArg (Option.bind · some) (hwrite _)⟩
    obtain ⟨n, hend⟩ := hend
    have hline : ∃ cs', next e'.target 10 = some (cs', []) ∧ atLine cs' = true := by
      rcases hcs₃ with heq | heq
      · rw [heq]
        exact ⟨20, next_feed.1, rfl⟩
      · rw [heq]
        exact ⟨43, next_feed.2, rfl⟩
    obtain ⟨cs', hfeed, hcs'⟩ := hline
    have hdone' : .done ∉ e'.actions := by
      rcases hactions' with hactions' | hactions' <;> simp [hactions']
    have hcr : Moves buffer (s.update ({ · with mark := p })) cs₂ (p + 1 + value.length) [13, 10]
        (s.recorded p n line) cs' :=
      .cons hnext' hdone' hend (.cons hfeed List.not_mem_nil rfl .nil)
    refine ⟨cs', n, .cons hnext ?_ ?_ (hrest.append hcr), hcs'⟩
    · simp [hactions]
    · rw [hactions]
      rfl

/-- The parser behind the bytes up to `q`, with the data that it has made of them. -/
structure Recorded (data : HttpResponse) (q : ℕ) (s s' : HttpResponseParser) : Prop where
  data : s'.data = data
  error : s'.error = s.error
  chunked : s'.parser.chunked = s.parser.chunked
  nread : s'.parser.nread = s.parser.nread
  body_start : s'.parser.body_start = s.parser.body_start
  marks : s'.parser.mark ≤ q ∧ s'.parser.field_start ≤ q ∧ s'.parser.field_len ≤ q

theorem Recorded.trans {data data' : HttpResponse} {q q' : ℕ} (h : Recorded data q s s')
    (h' : Recorded data' q' s' s'') : Recorded data' q' s s'' where
  data := h'.data
  error := h'.error.trans h.error
  chunked := h'.chunked.trans h.chunked
  nread := h'.nread.trans h.nread
  body_start := h'.body_start.trans h.body_start
  marks := h'.marks

/-- **A line** is recorded as one header. -/
theorem moves_line {line : Line} (h : line.Ordinary) (hcs : atLine cs = true)
    (hdrop : buffer.drop p = line.dump ++ rest) :
    ∃ s' cs', Moves buffer s cs p line.dump s' cs' ∧
      Recorded (s.data.record [line]) (p + line.dump.length) s s' ∧ atLine cs' = true := by
  obtain ⟨cs₁, close, m, hfield, hcs₁, hwatched⟩ :=
    moves_field buffer (s := s) (p := p) h.regular hcs h.unchunked
  have hdump : line.dump = line.name ++ 58 :: line.blank ++ (line.value ++ [13, 10]) := by
    rw [Line.dump, List.append_assoc, List.cons_append]
  have hname : buffer.drop p =
      line.name ++ (58 :: line.blank ++ (line.value ++ [13, 10]) ++ rest) := by
    simp only [hdrop, hdump, List.append_assoc]
  have hvalue : buffer.drop (p + (line.name ++ 58 :: line.blank).length) =
      line.value ++ ([13, 10] ++ rest) := by
    rw [← List.append_assoc]
    refine drop_of_drop (hdrop.trans ?_)
    rw [hdump, List.append_assoc]
  obtain ⟨cs', n, hend, hcs'⟩ := moves_value (s := s.update fun x => { x with
    close := close, field_start := p, field_len := line.name.length, mark := m }) h.regular hcs₁
    (fun hnil => by_contra fun hne => h.leaves ⟨hnil, hwatched hne⟩) hname rfl hvalue
  have hmoves := hfield.append hend
  rw [← hdump] at hmoves
  have hlen : line.dump.length = line.name.length + (line.blank.length + 1) +
      (line.value.length + 2) := by
    rw [hdump]
    simp only [List.length_append, List.length_cons, List.length_nil]
  refine ⟨_, cs', hmoves, ⟨rfl, rfl, rfl, rfl, rfl, ?_⟩, hcs'⟩
  simp only [recorded, update, List.length_append, List.length_cons, hlen]
  omega

/-- **The lines** are recorded one after the other. -/
theorem moves_lines {lines : List Line} (h : ∀ line ∈ lines, line.Ordinary)
    (hcs : atLine cs = true)
    (hs : s.parser.mark ≤ p ∧ s.parser.field_start ≤ p ∧ s.parser.field_len ≤ p)
    (hdrop : buffer.drop p = lines.flatMap Line.dump ++ rest) :
    ∃ s' cs', Moves buffer s cs p (lines.flatMap Line.dump) s' cs' ∧
      Recorded (s.data.record lines) (p + (lines.flatMap Line.dump).length) s s' ∧
        atLine cs' = true := by
  induction lines generalizing s cs p with
  | nil => exact ⟨s, cs, .nil, ⟨rfl, rfl, rfl, rfl, rfl, hs⟩, hcs⟩
  | cons line lines ih =>
    rw [List.flatMap_cons, List.append_assoc] at hdrop
    obtain ⟨s₁, cs₁, hline, hrecorded, hcs₁⟩ := moves_line (s := s) (h line (by simp)) hcs hdrop
    obtain ⟨s', cs', hlines, hrecorded', hcs'⟩ := ih
      (fun line hl => h line (List.mem_cons_of_mem _ hl)) hcs₁ hrecorded.marks (drop_of_drop hdrop)
    rw [hrecorded.data, Nat.add_assoc, ← List.length_append, ← List.flatMap_cons] at hrecorded'
    exact ⟨s', cs', hline.append hlines, hrecorded.trans hrecorded', hcs'⟩

end HttpResponseParser

/-! ## The number of the status -/

theorem digitsValue_stop {base : ℕ} {digits rest : List UInt8} {c : UInt8} (n : ℕ)
    (hdigits : ∀ d ∈ digits, (digitValue base d).isSome = true) (hc : digitValue base c = none) :
    digitsValue base n (digits ++ c :: rest) = digitsValue base n digits := by
  induction digits generalizing n with
  | nil => simp only [List.nil_append, digitsValue, hc]
  | cons d digits ih =>
    obtain ⟨k, hk⟩ := Option.isSome_iff_exists.mp (hdigits d (by simp))
    simp only [List.cons_append, digitsValue, hk]
    exact ih _ fun e he => hdigits e (List.mem_cons_of_mem _ he)

theorem digit_class : ∀ n : Fin 256, isDigit (.ofNat n) = true →
    isSpace (.ofNat n) = false ∧ UInt8.ofNat n ≠ 43 ∧ UInt8.ofNat n ≠ 45 ∧
      (digitValue 10 (.ofNat n)).isSome = true := by
  decide +kernel

theorem isDigit_class {c : UInt8} (hc : isDigit c = true) :
    isSpace c = false ∧ c ≠ 43 ∧ c ≠ 45 ∧ (digitValue 10 c).isSome = true := by
  have h := digit_class ⟨c.toNat, c.toNat_lt⟩
  simp only [UInt8.ofNat_toNat] at h
  exact h hc

/-- A text that starts with a digit has no blanks, sign or prefix. -/
theorem strtol_cons {c : UInt8} (text : List UInt8) (hc : isDigit c = true) :
    strtol 10 (c :: text) = (min (digitsValue 10 0 (c :: text)) (2 ^ 63 - 1) : ℕ) := by
  obtain ⟨hspace, hplus, hminus, -⟩ := isDigit_class hc
  have hprefix : dropPrefix 10 (c :: text) = c :: text := if_neg fun h => by cases h.1
  have hspaces : (c :: text).dropWhile isSpace = c :: text := by
    rw [List.dropWhile_cons, hspace]
    rfl
  simp only [strtol, hspaces, List.head?_cons, Option.some.injEq, hplus, hminus, or_self, if_false,
    hprefix]

/-- A number ends at the blank behind it. -/
theorem atoi_digits {digits : List UInt8} (rest : List UInt8) (hne : digits ≠ [])
    (hdigits : ∀ c ∈ digits, isDigit c = true) : atoi (digits ++ 32 :: rest) = atoi digits := by
  have hvalue : digitsValue 10 0 (digits ++ 32 :: rest) = digitsValue 10 0 digits :=
    digitsValue_stop 0 (fun d hd => (isDigit_class (hdigits d hd)).2.2.2) rfl
  cases digits with
  | nil => exact absurd rfl hne
  | cons d digits =>
    have hd := hdigits d (by simp)
    rw [List.cons_append] at hvalue ⊢
    rw [atoi, atoi, strtol_cons _ hd, strtol_cons _ hd, hvalue]

namespace HttpResponseParser

variable {buffer text rest : List UInt8} {s : HttpResponseParser} {cs p : ℕ}

/-! ## The status line -/

/-- **The actions along the status line.** -/
structure StatusEdges : Prop where
  status : edgesBy every (· = 16) isDigit (fun _ e => e.target = 17 && e.actions = [.mark]) = true
  digits : edgesBy every (· = 17) isDigit (fun _ e => e.target = 17 && e.actions = []) = true
  reason : edgesBy every (· = 18) isText (fun _ e => e.target = 19 && e.actions = [.mark]) = true
  text : edgesBy every (· = 19) isText (fun _ e => e.target = 19 && e.actions = []) = true

theorem statusEdges : StatusEdges where
  status := by decide +kernel
  digits := by decide +kernel
  reason := by decide +kernel
  text := by decide +kernel

theorem next_status : next 15 32 = some (16, [.http_version]) ∧
    next 17 32 = some (18, [.status_code]) ∧ next 19 13 = some (24, [.reason_phrase]) ∧
      next 20 13 = some (3, []) ∧ next 43 13 = some (3, [.write_connection_close]) ∧
        next 3 10 = some (120, [.done]) := by
  decide

/-- A text that is marked at its start: its first byte leads into a loop. -/
theorem moves_marked {ok : UInt8 → Bool} {cs₀ cs₁ : ℕ} (hlt : cs₀ < 120 ∧ cs₁ < 120)
    (hfirst : edgesBy every (· = cs₀) ok (fun _ e => e.target = cs₁ && e.actions = [.mark]) = true)
    (hloop : edgesBy every (· = cs₁) ok (fun _ e => e.target = cs₁ && e.actions = []) = true)
    (hne : text ≠ []) (htext : ∀ c ∈ text, ok c = true) :
    Moves buffer s cs₀ p text (s.update ({ · with mark := p })) cs₁ := by
  cases text with
  | nil => exact absurd rfl hne
  | cons c text =>
    obtain ⟨e, hnext, hR⟩ := next_of_edgesBy hfirst (decide_eq_true rfl) hlt.1 (htext c (by simp))
    rw [Bool.and_eq_true, decide_eq_true_eq, decide_eq_true_eq] at hR
    obtain ⟨htarget, hactions⟩ := hR
    obtain ⟨cs', hmoves, hcs', -⟩ := moves_quiet buffer
      (s := s.update ({ · with mark := p })) (p := p + 1) (P := (· = cs₁)) hloop
      (fun cs h => (decide_eq_true_eq.mp h) ▸ hlt.2) (decide_eq_true rfl)
      fun d hd => htext d (List.mem_cons_of_mem _ hd)
    obtain rfl : cs' = cs₁ := decide_eq_true_eq.mp hcs'
    rw [htarget] at hnext
    refine .cons hnext ?_ ?_ hmoves
    · simp [hactions]
    · rw [hactions]
      rfl

end HttpResponseParser

/-- The version of a text that is one of the two. -/
def ResponseHead.versionNumber (head : ResponseHead) : UInt8 :=
  if head.version = bytes "HTTP/1.1" then 0x11 else 0x10

/-- **The response of a head.** -/
def ResponseHead.response (head : ResponseHead) : HttpResponse :=
  HttpResponse.record
    { status := .ofInt (atoi head.status), version := head.versionNumber, reason := head.reason }
    head.lines

namespace HttpResponseParser

variable {buffer text rest : List UInt8} {s : HttpResponseParser} {cs p : ℕ}

theorem act_http_version {head : ResponseHead}
    (hversion : head.version ∈ [bytes "HTTP/1.0", bytes "HTTP/1.1"])
    (hbuffer : buffer = head.version ++ rest) (hmark : s.parser.mark = 0) :
    act buffer 8 s .http_version =
      some { s with data := { s.data with version := head.versionNumber } } := by
  subst hbuffer
  simp only [act, onResponseVersion, hmark, List.drop_zero]
  unfold ResponseHead.versionNumber
  rcases List.mem_pair.mp hversion with hv | hv
  · rw [hv]
    rfl
  · rw [hv]
    rfl

/-- **The status line** behind the version. -/
theorem moves_statusLine {head : ResponseHead} (h : head.Regular) (hreason : head.reason ≠ [])
    (hbuffer : buffer =
      head.version ++ (32 :: (head.status ++ 32 :: (head.reason ++ [13, 10])) ++ rest))
    (hmark : s.parser.mark = 0 ∧ s.parser.field_start = 0 ∧ s.parser.field_len = 0) :
    ∃ s', Moves buffer s 15 8 (32 :: (head.status ++ 32 :: (head.reason ++ [13, 10]))) s' 20 ∧
      Recorded { s.data with
          status := .ofInt (atoi head.status)
          version := head.versionNumber
          reason := head.reason }
        (8 + (32 :: (head.status ++ 32 :: (head.reason ++ [13, 10]))).length) s s' := by
  obtain ⟨h15, h17, h19, -⟩ := next_status
  have hdrop : buffer.drop 8 = [32] ++ (head.status ++ ([32] ++ (head.reason ++
      ([13, 10] ++ rest)))) := by
    rw [hbuffer, List.drop_left' (length_version h.version)]
    simp
  have hstatus := drop_of_drop hdrop
  have hreason' := drop_of_drop (drop_of_drop hstatus)
  simp only [List.length_cons, List.length_nil, Nat.zero_add] at hstatus hreason'
  have hversion := act_http_version (s := s) h.version hbuffer hmark.1
  set s₁ : HttpResponseParser := { s with data := { s.data with version := head.versionNumber } }
  have hdigits : Moves buffer s₁ 16 9 head.status (s₁.update ({ · with mark := 9 })) 17 :=
    moves_marked (by decide) statusEdges.status statusEdges.digits h.status h.digits
  -- the number of the status, once for the parser and once for the response
  obtain ⟨n, hcode⟩ : ∃ n, act buffer (9 + head.status.length) (s₁.update ({ · with mark := 9 }))
      .status_code = some { s₁ with
        parser := { s.parser with mark := 9, status := n }
        data := { s₁.data with status := .ofInt (atoi head.status) } } := by
    have hnumber : atoi (buffer.drop 9) = atoi head.status := by
      rw [hstatus]
      exact atoi_digits _ h.status h.digits
    refine ⟨longToInt (strtol 10 (buffer.drop 9)), ?_⟩
    simp only [act, onResponseStatus, update, hnumber]
    rfl
  set s₂ : HttpResponseParser := { s₁ with
    parser := { s.parser with mark := 9, status := n }
    data := { s₁.data with status := .ofInt (atoi head.status) } }
  set q := 9 + head.status.length + 1 with hq
  have htext : Moves buffer s₂ 18 q head.reason (s₂.update ({ · with mark := q })) 19 :=
    moves_marked (by decide) statusEdges.reason statusEdges.text hreason h.reason
  have hphrase : act buffer (q + head.reason.length) (s₂.update ({ · with mark := q }))
      .reason_phrase = some { s₂ with
        parser := { s₂.parser with mark := q }
        data := { s₂.data with reason := head.reason } } := by
    simp only [act, onResponseReason, update, len_add, hreason', str_append, Option.map_some]
  have hmoves := (Moves.cons (s := s) (p := 8) h15 (by simp)
    (congrArg (Option.bind · some) hversion) (hdigits.append (.cons h17 (by simp)
      (congrArg (Option.bind · some) hcode) (htext.append (.cons h19 (by simp)
        (congrArg (Option.bind · some) hphrase) (.cons next_feed.1 List.not_mem_nil rfl .nil))))))
  refine ⟨_, hmoves, ⟨rfl, rfl, rfl, rfl, rfl, ?_⟩⟩
  obtain ⟨-, hstart, hlen⟩ := hmark
  simp only [hstart, hlen, hq, s₂, List.length_cons, List.length_append, List.length_nil]
  omega

theorem next_return (h : atLine cs = true) :
    ∃ close : Bool → Bool, ∀ (s : HttpResponseParser) (buffer : List UInt8) (p : ℕ),
      Moves buffer s cs p [13] (s.update fun x => { x with close := close x.close }) 3 := by
  obtain ⟨-, -, -, h20, h43, -⟩ := next_status
  rw [atLine, Bool.or_eq_true, decide_eq_true_eq, decide_eq_true_eq] at h
  rcases h with rfl | rfl
  · exact ⟨id, fun s buffer p => .cons h20 List.not_mem_nil rfl .nil⟩
  · exact ⟨fun _ => true, fun s buffer p => .cons h43 (by simp) rfl .nil⟩

/-- **A head**: a fresh parser takes it in one call, makes its response, and leaves what is behind
it. -/
theorem execute_head {head : ResponseHead} (h : head.Regular) (hreason : head.reason ≠ [])
    (hlines : ∀ line ∈ head.lines, line.Ordinary) (memory : HttpclientParser) (body : List UInt8) :
    ∃ parser, (HttpResponseParser.new memory).execute (head.dump ++ body) false =
        some (parser, head.dump.length, body) ∧
      parser.data = head.response ∧ parser.hasError = false ∧ parser.isFinished = true ∧
      parser.parser.chunked = false := by
  set s := HttpResponseParser.new memory with hs
  set start := 32 :: (head.status ++ 32 :: (head.reason ++ [13, 10])) with hstart
  set lines := head.lines.flatMap Line.dump with hlines'
  have hdump : head.dump ++ body =
      head.version ++ (start ++ (lines ++ ([13] ++ (10 :: body)))) := by
    simp only [ResponseHead.dump, ResponseHead.rest, hstart, hlines', List.append_assoc,
      List.cons_append, List.nil_append]
  set buffer := head.dump ++ body with hbuffer
  have hcomes := comes_version (s := s) (b := false) (start ++ (lines ++ ([13] ++ (10 :: body))))
    ⟨rfl, rfl, rfl, rfl⟩ h.version
  rw [← hdump] at hcomes
  obtain ⟨s₁, hline, hrecorded⟩ :=
    moves_statusLine (s := s.restart) h hreason hdump ⟨rfl, rfl, rfl⟩
  have hdrop : buffer.drop (8 + start.length) = lines ++ ([13] ++ (10 :: body)) := by
    refine drop_of_drop ?_
    rw [hdump, List.drop_left' (length_version h.version)]
  obtain ⟨s₂, cs₂, hheaders, hrecorded₂, hcs₂⟩ :=
    moves_lines hlines (show atLine 20 = true from rfl) hrecorded.marks hdrop
  obtain ⟨close, hreturn⟩ := next_return hcs₂
  have hrecorded' := hrecorded.trans hrecorded₂
  set q := 8 + start.length + lines.length + 1 with hq
  have hlen : head.dump.length = q + 1 := by
    have hlength := congrArg List.length hdump
    simp only [hbuffer, List.length_append, List.length_cons, List.length_nil,
      length_version h.version] at hlength
    omega
  -- the machine goes along the head, and the line feed leaves its loop
  set s₃ := s₂.update fun x => { x with close := close x.close, body_start := q + 1 } with hs₃
  have hexec : s.restart.exec buffer s.parser.cs 0 buffer = some (s₃, 120, q + 1) := by
    rw [hcomes.exec, hline, hheaders, hreturn]
    rfl
  have hmarks := hrecorded'.marks
  rw [← hstart, ← hlines'] at hmarks
  have hlength : buffer.length = q + 1 + body.length := by
    rw [hbuffer, List.length_append, hlen]
  have hbounds : (s₃.stop 120 (q + 1)).parser.inBounds buffer.length := by
    have hnread : s₂.parser.nread = 0 := hrecorded'.nread
    simp only [HttpclientParser.inBounds, hs₃, stop, update, hnread]
    omega
  have hcall := execute_of_exec hexec hbounds hrecorded'.nread
  rw [hlen, hcall, ← hlen, hbuffer, List.drop_left]
  have herror : s₂.error = 0 := hrecorded'.error
  have hdata : s₂.data = head.response := by
    rw [hrecorded'.data, hrecorded.data]
    rfl
  refine ⟨_, rfl, hdata, ?_, rfl, hrecorded'.chunked⟩
  simp [HttpResponseParser.hasError, HttpclientParser.hasError, hs₃, stop, update, herror]

end HttpResponseParser

end Http

end Sylar
