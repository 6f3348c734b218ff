import Sylar.Http.ClientTrack
import Sylar.Http.Grammar

/-!
# The grammar of a response

What the machine makes of the parts of a response, each read from the state in which the status line
or the headers expect it.

Blanks and line ends are alike in front of the values that the machine looks for: those of
`Connection`, `Content-Length` and `Transfer-Encoding`. Behind such a value that is blank it takes
the next line for a header or for more of the value, and the end of the headers for either, so that
it ends in a final state that does not count as finished.

## Main definitions

* `Line.Regular`, `ResponseHead`: a header line, and what stands in front of the body
* `Line.IsChunked`, `Line.Leaves`: the line that asks for chunks, and those that leave the machine
  in doubt

## Main results

* `exists_edge`: what the table is checked for, by rows and not by bytes
* `track_line`: a line, from any state in which the machine expects one
* `track_head`: a head whose last line leaves no doubt
-/

namespace Sylar

open Foundation

namespace Http

/-! ## Heads -/

def isSpacing (c : UInt8) : Bool := c = 32 || c = 9

/-- The bytes of a value. -/
def isText (c : UInt8) : Bool := isContent c || c = 9

/-- A token, blanks, and a value that starts with none. -/
structure Line.Regular (line : Line) : Prop where
  named : line.name ≠ []
  name : ∀ c ∈ line.name, isToken c = true
  blank : ∀ c ∈ line.blank, isSpacing c = true
  value : ∀ c ∈ line.value, isText c = true
  head : ∀ c ∈ line.value.head?, isSpacing c = false

/-- `Transfer-Encoding: chunked`, in letters of any case. -/
def Line.IsChunked (line : Line) : Prop :=
  line.name.map toLower = bytes "transfer-encoding" ∧ line.value.map toLower = bytes "chunked"

/-- The names with values that the machine looks for. -/
def watched : List (List UInt8) :=
  [bytes "connection", bytes "content-length", bytes "transfer-encoding"]

/-- **The line leaves the machine in doubt**: its value is blank, and is one of those that the
machine looks for. -/
def Line.Leaves (line : Line) : Prop := line.value = [] ∧ line.name.map toLower ∈ watched

/-- The status line and the headers. -/
structure ResponseHead where
  version : List UInt8
  status : List UInt8
  reason : List UInt8
  lines : List Line

namespace ResponseHead

/-- What stands behind the version, without the last line feed. -/
def rest (head : ResponseHead) : List UInt8 :=
  32 :: (head.status ++ 32 :: (head.reason ++ [13, 10])) ++ (head.lines.flatMap Line.dump ++ [13])

def dump (head : ResponseHead) : List UInt8 := head.version ++ (head.rest ++ [10])

/-- The versions are those that the parser knows. -/
structure Regular (head : ResponseHead) : Prop where
  version : head.version ∈ [bytes "HTTP/1.0", bytes "HTTP/1.1"]
  status : head.status ≠ []
  digits : ∀ c ∈ head.status, isDigit c = true
  reason : ∀ c ∈ head.reason, isText c = true
  lines : ∀ line ∈ head.lines, line.Regular

end ResponseHead

namespace HttpResponseParser

variable {A : ClientAction → Bool} {b : Bool} {cs cs' : ℕ} {c : UInt8} {text : List UInt8}

/-! ## Edges -/

/-- All actions are admitted. -/
def every : ClientAction → Bool := fun _ => true

/-- An edge that is safe, and leaves the flag. -/
def safe (A : ClientAction → Bool) (cs : ℕ) (e : ClientEdge) : Bool :=
  e.target ≠ 0 && e.target < 120 && e.actions.all A &&
    (e.actions.foldlM Stage.after (stage cs)).any (·.allows (stage e.target)) &&
    !(e.actions.contains .trans_chunked || e.actions.contains .chunk_size)

/-- The bytes from one number up to another. -/
def bytesFrom (lo hi : ℕ) : List UInt8 := (List.range' lo (hi - lo)).map .ofNat

/-- The edges of a row in the order of their bytes, from the byte `n` on: those for bytes of a class
are safe and have a property, and no byte of the class lies between them. -/
def rowEdges (A : ClientAction → Bool) (ok : UInt8 → Bool) (R : ClientEdge → Bool) (cs : ℕ) :
    ℕ → List ClientEdge → Bool
  | n, [] => (bytesFrom n 256).all (!ok ·)
  | n, e :: row => n ≤ e.lo && (bytesFrom n e.lo).all (!ok ·) &&
    ((bytesFrom e.lo (e.hi + 1)).all (!ok ·) || safe A cs e && R e) &&
    rowEdges A ok R cs (e.hi + 1) row

/-- From the states of a set, the bytes of a class have safe edges with a property. -/
def edgesBy (A : ClientAction → Bool) (P : ℕ → Bool) (ok : UInt8 → Bool)
    (R : ℕ → ClientEdge → Bool) : Bool :=
  clientTable.zipIdx.all fun x => !P x.2 || rowEdges A ok (R x.2) x.2 0 x.1

/-- From the states of a set, the bytes of a class have safe edges to where a relation says. -/
def edges (A : ClientAction → Bool) (P : ℕ → Bool) (ok : UInt8 → Bool) (Q : ℕ → ℕ → Bool) : Bool :=
  edgesBy A P ok fun cs e => Q cs e.target

variable {P : ℕ → Bool} {ok : UInt8 → Bool} {Q : ℕ → ℕ → Bool}

theorem mem_bytesFrom {lo hi : ℕ} (hlo : lo ≤ c.toNat) (hhi : c.toNat < hi) :
    c ∈ bytesFrom lo hi := by
  have hmem : c.toNat ∈ List.range' lo (hi - lo) := List.mem_range'_1.mpr (by omega)
  exact List.mem_map.mpr ⟨c.toNat, hmem, UInt8.ofNat_toNat⟩

theorem of_rowEdges {n : ℕ} {row : List ClientEdge} {R : ClientEdge → Bool}
    (h : rowEdges A ok R cs n row = true) (hn : n ≤ c.toNat) (hc : ok c = true) :
    ∃ e, row.find? (fun e => decide (e.lo ≤ c.toNat) && decide (c.toNat ≤ e.hi)) = some e ∧
      safe A cs e = true ∧ R e = true := by
  have hnone : ∀ lo hi, (bytesFrom lo hi).all (!ok ·) = true → lo ≤ c.toNat → hi ≤ c.toNat := by
    intro lo hi hall hlo
    by_contra hhi
    have hnot := List.all_eq_true.mp hall c (mem_bytesFrom hlo (Nat.lt_of_not_le hhi))
    rw [hc] at hnot
    cases hnot
  induction row generalizing n with
  | nil => exact absurd c.toNat_lt (Nat.not_lt.mpr (hnone n 256 h hn))
  | cons e row ih =>
    simp only [rowEdges, Bool.and_eq_true, Bool.or_eq_true] at h
    obtain ⟨⟨⟨-, hgap⟩, hedge⟩, hrow⟩ := h
    have hlo := hnone n e.lo hgap hn
    by_cases hhi : c.toNat ≤ e.hi
    · have hne : ¬ e.hi + 1 ≤ c.toNat := Nat.not_le.mpr (Nat.lt_succ_of_le hhi)
      exact ⟨e, List.find?_cons_of_pos (by simp [hlo, hhi]),
        hedge.resolve_left fun hall => hne (hnone _ _ hall hlo)⟩
    · obtain ⟨e', hfind, he'⟩ := ih hrow (Nat.lt_of_not_le hhi)
      exact ⟨e', (List.find?_cons_of_neg (by simp [hhi])).trans hfind, he'⟩

/-- The edge for a byte of the class. -/
theorem exists_edge {R : ℕ → ClientEdge → Bool} (h : edgesBy A P ok R = true) (hcs : P cs = true)
    (hlt : cs < 120) (hc : ok c = true) :
    ∃ e : ClientEdge, advance A (cs, b) c = some (e.target, b) ∧ R cs e = true ∧
      c ∈ bytesFrom e.lo (e.hi + 1) := by
  have hlen : cs < clientTable.length := Nat.lt_of_lt_of_eq (by omega) (rfl : 124 = _)
  have hrow := List.all_eq_true.mp h (clientTable[cs], cs)
    (List.mem_zipIdx_iff_getElem?.mpr (List.getElem?_eq_getElem hlen))
  simp only [hcs, Bool.not_true, Bool.false_or] at hrow
  obtain ⟨e, hfind, hsafe, hR⟩ := of_rowEdges hrow (Nat.zero_le _) hc
  have hrange := List.find?_some hfind
  simp only [Bool.and_eq_true, decide_eq_true_eq] at hrange
  have hnext : next cs c = some (e.target, e.actions) := by
    rw [next, List.getD_eq_getElem?_getD, List.getElem?_eq_getElem hlen, Option.getD_some, hfind,
      Option.map_some]
  refine ⟨e, ?_, hR, mem_bytesFrom hrange.1 (Nat.lt_succ_of_le hrange.2)⟩
  simp only [safe, Bool.and_eq_true, decide_eq_true_eq, Bool.not_eq_true'] at hsafe
  obtain ⟨⟨⟨⟨hzero, hfinal⟩, hactions⟩, hstage⟩, hflag⟩ := hsafe
  unfold advance
  rw [hnext, Option.bind_some]
  simp only
  rw [if_pos ⟨hzero, hfinal, hactions, hstage⟩, Bool.or_assoc, hflag, Bool.or_false]

theorem of_edges (h : edges A P ok Q = true) (hcs : P cs = true) (hlt : cs < 120)
    (hc : ok c = true) : ∃ cs', advance A (cs, b) c = some (cs', b) ∧ Q cs cs' = true := by
  obtain ⟨e, hadvance, hQ, -⟩ := exists_edge (b := b) h hcs hlt hc
  exact ⟨e.target, hadvance, hQ⟩

/-- A text within a set of states. -/
theorem track_all (h : edges A P ok (fun _ cs' => P cs') = true)
    (hlt : ∀ cs, P cs = true → cs < 120) (hcs : P cs = true) (htext : ∀ c ∈ text, ok c = true) :
    ∃ cs', track A (cs, b) text = some (cs', b) ∧ P cs' = true := by
  induction text generalizing cs with
  | nil => exact ⟨cs, rfl, hcs⟩
  | cons c text ih =>
    obtain ⟨cs₁, hadvance, hcs₁⟩ := of_edges (b := b) h hcs (hlt cs hcs) (htext c (by simp))
    obtain ⟨cs', htrack, hcs'⟩ := ih hcs₁ fun d hd => htext d (List.mem_cons_of_mem _ hd)
    exact ⟨cs', (track_cons hadvance).trans htrack, hcs'⟩

/-! ## Lines -/

/-- The states in which a line may start. -/
def inLine (cs : ℕ) : Bool := cs = 20 || cs = 36 || cs = 43 || cs = 62 || cs = 113

/-- What is known of a name: a name that the machine looks for, or the first letters of one. -/
def label (cs : ℕ) : Option (List UInt8) :=
  if cs = 73 ∨ cs = 90 then some (bytes "c")
  else if 25 ≤ cs ∧ cs ≤ 34 then some ((bytes "connection").take (cs - 24))
  else if 44 ≤ cs ∧ cs ≤ 60 then some ((bytes "transfer-encoding").take (cs - 43))
  else if 101 ≤ cs ∧ cs ≤ 111 then some ((bytes "content-length").take (cs - 97))
  else none

/-- The letters of a text, in any case, lead from state to state. -/
def spells : List UInt8 → ℕ → Bool
  | [], _ => true
  | c :: lit, cs =>
    edges every (· = cs) (fun d => toLower d = c) (fun _ cs' => cs' = cs + 1) && spells lit (cs + 1)

/-- **The edges of a line**, by what they read. -/
structure LineEdges : Prop where
  /-- The first byte of a name. -/
  first : edgesBy every inLine isToken (fun _ e =>
    inName e.target && (label e.target).all fun text =>
      (bytesFrom e.lo (e.hi + 1)).all fun c => text == [toLower c]) = true
  name : edgesBy every inName isToken (fun cs e =>
    inName e.target && (label e.target).all fun text =>
      (bytesFrom e.lo (e.hi + 1)).all fun c => (label cs).any (text == · ++ [toLower c])) = true
  colon : edges every inName (· = 58) (fun cs cs' =>
    inBlank cs' && (cs' = 22 || (label cs).any watched.contains)) = true
  blank : edges every inBlank isSpacing (fun cs cs' => cs' = cs) = true
  /-- The first byte of a value. -/
  start : edges every inBlank (fun c => isText c && !isSpacing c)
    (fun _ cs' => inValue cs') = true
  value : edges every inValue isText (fun _ cs' => inValue cs') = true
  /-- The end of a line, behind a value and behind blanks. -/
  stop : edges every inValue (· = 13) (fun _ cs' => cs' = 24 || cs' = 71 || cs' = 88) = true
  stop_blank : edges every inBlank (· = 13) (fun cs cs' =>
    cs = 22 && cs' = 24 || cs ≠ 22 && (cs' = 80 || cs' = 95 || cs' = 118)) = true
  /-- The line that asks for chunks. -/
  encoding : edges every inLine (fun c => toLower c = 116) (fun _ cs' => cs' = 44) = true
  encoding_rest : spells (bytes "ransfer-encoding") 44 = true
  chunked : edges every (· = 61) (fun c => toLower c = 99) (fun _ cs' => cs' = 81) = true
  chunked_rest : spells (bytes "hunked") 81 = true
  /-- The status and the reason, behind the blanks in front of them. -/
  status : edges every (fun cs => cs = 16 || cs = 17) isDigit (fun _ cs' => cs' = 17) = true
  reason : edges every (fun cs => cs = 18 || cs = 19) isText (fun _ cs' => cs' = 19) = true

theorem lineEdges : LineEdges where
  first := by decide +kernel
  name := by decide +kernel
  colon := by decide +kernel
  blank := by decide +kernel
  start := by decide +kernel
  value := by decide +kernel
  stop := by decide +kernel
  stop_blank := by decide +kernel
  encoding := by decide +kernel
  encoding_rest := by decide +kernel
  chunked := by decide +kernel
  chunked_rest := by decide +kernel
  status := by decide +kernel
  reason := by decide +kernel

theorem advance_feed (b : Bool) :
    advance every (24, b) 10 = some (20, b) ∧ advance every (88, b) 10 = some (43, b) ∧
      advance every (71, b) 10 = some (20, true) ∧ advance every (80, b) 10 = some (62, b) ∧
      advance every (95, b) 10 = some (36, b) ∧ advance every (118, b) 10 = some (113, b) := by
  cases b <;> decide

theorem lt_of_inName (h : inName cs = true) : cs < 120 := by
  simp only [inName, Bool.or_eq_true, Bool.and_eq_true, decide_eq_true_eq] at h
  omega

theorem lt_of_inBlank (h : inBlank cs = true) : cs < 120 := by
  simp only [inBlank, Bool.or_eq_true, decide_eq_true_eq] at h
  omega

theorem lt_of_inValue (h : inValue cs = true) : cs < 120 := by
  simp only [inValue, Bool.or_eq_true, Bool.and_eq_true, decide_eq_true_eq] at h
  omega

theorem lt_of_inLine (h : inLine cs = true) : cs < 120 := by
  simp only [inLine, Bool.or_eq_true, decide_eq_true_eq] at h
  omega

/-- The rest of a name, of which something is known. -/
theorem track_letters {known name : List UInt8} (hcs : inName cs = true)
    (hlabel : ∀ text ∈ label cs, text = known) (hname : ∀ c ∈ name, isToken c = true) :
    ∃ cs', track every (cs, b) name = some (cs', b) ∧ inName cs' = true ∧
      ∀ text ∈ label cs', text = known ++ name.map toLower := by
  induction name generalizing cs known with
  | nil =>
    refine ⟨cs, rfl, hcs, fun text htext => ?_⟩
    rw [hlabel text htext, List.map_nil, List.append_nil]
  | cons c name ih =>
    obtain ⟨e, hadvance, hR, hc⟩ :=
      exists_edge (b := b) lineEdges.name hcs (lt_of_inName hcs) (hname c (by simp))
    obtain ⟨hcs₁, hall⟩ := Bool.and_eq_true_iff.mp hR
    have hlabel₁ : ∀ text ∈ label e.target, text = known ++ [toLower c] := by
      intro text htext
      have hany := List.all_eq_true.mp ((Option.all_eq_true ..).mp hall text htext) c hc
      obtain ⟨text₀, htext₀, heq⟩ := (Option.any_eq_true ..).mp hany
      rw [← hlabel text₀ htext₀]
      exact eq_of_beq heq
    obtain ⟨cs', htrack, hcs', hlabel'⟩ :=
      ih hcs₁ hlabel₁ fun d hd => hname d (List.mem_cons_of_mem _ hd)
    refine ⟨cs', (track_cons hadvance).trans htrack, hcs', fun text htext => ?_⟩
    rw [hlabel' text htext, List.append_assoc, List.singleton_append, List.map_cons]

/-- **A name**, of which the machine remembers whether it looks for its value. -/
theorem track_name {name : List UInt8} (hcs : inLine cs = true) (hne : name ≠ [])
    (hname : ∀ c ∈ name, isToken c = true) :
    ∃ cs', track every (cs, b) name = some (cs', b) ∧ inName cs' = true ∧
      ∀ text ∈ label cs', text = name.map toLower := by
  cases name with
  | nil => exact absurd rfl hne
  | cons c name =>
    obtain ⟨e, hadvance, hR, hc⟩ :=
      exists_edge (b := b) lineEdges.first hcs (lt_of_inLine hcs) (hname c (by simp))
    obtain ⟨hcs₁, hall⟩ := Bool.and_eq_true_iff.mp hR
    have hlabel₁ : ∀ text ∈ label e.target, text = [toLower c] := fun text htext =>
      eq_of_beq (List.all_eq_true.mp ((Option.all_eq_true ..).mp hall text htext) c hc)
    obtain ⟨cs', htrack, hcs', hlabel'⟩ :=
      track_letters (b := b) hcs₁ hlabel₁ fun d hd => hname d (List.mem_cons_of_mem _ hd)
    exact ⟨cs', (track_cons hadvance).trans htrack, hcs', hlabel'⟩

theorem track_blanks (hcs : inBlank cs = true) (htext : ∀ c ∈ text, isSpacing c = true) :
    track every (cs, b) text = some (cs, b) := by
  induction text with
  | nil => rfl
  | cons c text ih =>
    obtain ⟨cs', hadvance, heq⟩ :=
      of_edges (b := b) lineEdges.blank hcs (lt_of_inBlank hcs) (htext c (by simp))
    obtain rfl : cs' = cs := by simpa using heq
    exact (track_cons hadvance).trans (ih fun d hd => htext d (List.mem_cons_of_mem _ hd))

/-- The name of a line with its colon and its blanks. -/
theorem track_field {line : Line} (h : line.Regular) (hcs : inLine cs = true) :
    ∃ cs', track every (cs, b) (line.name ++ 58 :: line.blank) = some (cs', b) ∧
      inBlank cs' = true ∧ (cs' ≠ 22 → line.name.map toLower ∈ watched) := by
  obtain ⟨cs₁, hname, hcs₁, hlabel⟩ := track_name (b := b) hcs h.named h.name
  obtain ⟨cs', hcolon, hQ⟩ := of_edges (b := b) lineEdges.colon hcs₁ (lt_of_inName hcs₁)
    (c := 58) (by decide)
  obtain ⟨hcs', hwatched⟩ := Bool.and_eq_true_iff.mp hQ
  refine ⟨cs', ?_, hcs', fun hne => ?_⟩
  · rw [track_append hname, track_cons hcolon]
    exact track_blanks hcs' h.blank
  · rw [Bool.or_eq_true, decide_eq_true_eq] at hwatched
    obtain ⟨text, htext, hmem⟩ := (Option.any_eq_true ..).mp (hwatched.resolve_left hne)
    rw [← hlabel text htext]
    exact List.contains_iff_mem.mp hmem

/-- A value that is not blank, with the end of its line. -/
theorem track_value {value : List UInt8} (hcs : inBlank cs = true) (hne : value ≠ [])
    (hvalue : ∀ c ∈ value, isText c = true) (hhead : ∀ c ∈ value.head?, isSpacing c = false) :
    ∃ cs' b', track every (cs, b) (value ++ [13, 10]) = some (cs', b') ∧ (cs' = 20 ∨ cs' = 43) ∧
      (b = true → b' = true) := by
  cases value with
  | nil => exact absurd rfl hne
  | cons c value =>
    have hc : (isText c && !isSpacing c) = true := by
      rw [hvalue c (by simp), hhead c rfl]
      rfl
    obtain ⟨cs₁, hfirst, hcs₁⟩ := of_edges (b := b) lineEdges.start hcs (lt_of_inBlank hcs) hc
    obtain ⟨cs₂, hrest, hcs₂⟩ := track_all (b := b) lineEdges.value
      (fun _ h => lt_of_inValue h) hcs₁ fun d hd => hvalue d (List.mem_cons_of_mem _ hd)
    obtain ⟨cs₃, hreturn, hcs₃⟩ := of_edges (b := b) lineEdges.stop hcs₂ (lt_of_inValue hcs₂)
      (c := 13) (by decide)
    obtain ⟨h24, h88, h71, -⟩ := advance_feed b
    simp only [Bool.or_eq_true, decide_eq_true_eq] at hcs₃
    have hline : ∃ cs' b', advance every (cs₃, b) 10 = some (cs', b') ∧ (cs' = 20 ∨ cs' = 43) ∧
        (b = true → b' = true) := by
      -- an ordinary value, the end of `chunked`, or the end of a field that is looked at further
      rcases hcs₃ with (rfl | rfl) | rfl
      · exact ⟨20, b, h24, .inl rfl, id⟩
      · exact ⟨20, true, h71, .inl rfl, fun _ => rfl⟩
      · exact ⟨43, b, h88, .inr rfl, id⟩
    obtain ⟨cs', b', hfeed, hcs', hb'⟩ := hline
    refine ⟨cs', b', ?_, hcs', hb'⟩
    rw [List.cons_append, track_cons hfirst, track_append hrest, track_cons hreturn,
      track_cons hfeed, track_nil]

/-- The end of a line with a blank value. -/
theorem track_blank (hcs : inBlank cs = true) :
    ∃ cs', track every (cs, b) [13, 10] = some (cs', b) ∧ inLine cs' = true ∧
      (cs = 22 → cs' = 20) := by
  obtain ⟨cs₁, hreturn, hcs₁⟩ := of_edges (b := b) lineEdges.stop_blank hcs (lt_of_inBlank hcs)
    (c := 13) (by decide)
  obtain ⟨h24, -, -, h80, h95, h118⟩ := advance_feed b
  simp only [Bool.or_eq_true, Bool.and_eq_true, decide_eq_true_eq] at hcs₁
  rw [track_cons hreturn]
  rcases hcs₁ with ⟨-, rfl⟩ | ⟨hne, (rfl | rfl) | rfl⟩
  · exact ⟨20, track_cons h24, rfl, fun _ => rfl⟩
  · exact ⟨62, track_cons h80, rfl, fun heq => absurd heq hne⟩
  · exact ⟨36, track_cons h95, rfl, fun heq => absurd heq hne⟩
  · exact ⟨113, track_cons h118, rfl, fun heq => absurd heq hne⟩

theorem track_spelled {lit : List UInt8} (h : spells lit cs = true)
    (hlt : cs + lit.length ≤ 120) (htext : text.map toLower = lit) :
    track every (cs, b) text = some (cs + text.length, b) := by
  induction text generalizing lit cs with
  | nil => rfl
  | cons c text ih =>
    subst htext
    rw [List.map_cons, List.length_cons] at hlt
    rw [List.map_cons, spells, Bool.and_eq_true] at h
    obtain ⟨cs', hfirst, heq⟩ := of_edges (b := b) h.1 (decide_eq_true rfl)
      (by omega) (decide_eq_true rfl)
    obtain rfl : cs' = cs + 1 := by simpa using heq
    have htrack := ih h.2 (by omega) rfl
    rw [Nat.add_assoc, Nat.add_comm 1] at htrack
    exact (track_cons hfirst).trans htrack

theorem advance_chunked (b : Bool) :
    advance every (60, b) 58 = some (61, b) ∧ advance every (87, b) 13 = some (71, b) := by
  cases b <;> decide

/-- **The line that asks for chunks** sets the flag. -/
theorem track_chunked {line : Line} (h : line.Regular) (hchunked : line.IsChunked)
    (hcs : inLine cs = true) : track every (cs, b) line.dump = some (20, true) := by
  obtain ⟨hname, hvalue⟩ := hchunked
  obtain ⟨hcolon, hreturn⟩ := advance_chunked b
  obtain ⟨-, -, hfeed, -⟩ := advance_feed b
  -- the name is spelled along its own states, and so is the value
  have htrack : track every (cs, b) line.name = some (60, b) := by
    obtain ⟨c, name, hcons, hc, hrest⟩ := List.map_eq_cons_iff.mp hname
    obtain ⟨cs', hfirst, heq⟩ :=
      of_edges (b := b) lineEdges.encoding hcs (lt_of_inLine hcs) (decide_eq_true hc)
    obtain rfl : cs' = 44 := by simpa using heq
    have hlen : name.length = 16 := by
      rw [← List.length_map (f := toLower), hrest]
      rfl
    rw [hcons, track_cons hfirst, track_spelled lineEdges.encoding_rest (by decide) hrest,
      hlen]
  have htrack' : track every (61, b) line.value = some (87, b) := by
    obtain ⟨c, value, hcons, hc, hrest⟩ := List.map_eq_cons_iff.mp hvalue
    obtain ⟨cs', hfirst, heq⟩ := of_edges (b := b) lineEdges.chunked
      (decide_eq_true (rfl : 61 = 61)) (by decide) (decide_eq_true hc)
    obtain rfl : cs' = 81 := by simpa using heq
    have hlen : value.length = 6 := by
      rw [← List.length_map (f := toLower), hrest]
      rfl
    rw [hcons, track_cons hfirst, track_spelled lineEdges.chunked_rest (by decide) hrest, hlen]
  rw [Line.dump, track_append htrack, track_cons hcolon, track_append (track_blanks rfl h.blank),
    track_append htrack', track_cons hreturn, track_cons hfeed, track_nil]

/-- **A line**, from any state in which the machine expects one. -/
theorem track_line {line : Line} (h : line.Regular) (hcs : inLine cs = true) :
    ∃ cs' b', track every (cs, b) line.dump = some (cs', b') ∧ inLine cs' = true ∧
      (b = true ∨ line.IsChunked → b' = true) ∧ (¬ line.Leaves → cs' = 20 ∨ cs' = 43) := by
  by_cases hchunked : line.IsChunked
  · exact ⟨20, true, track_chunked h hchunked hcs, rfl, fun _ => rfl, fun _ => .inl rfl⟩
  obtain ⟨cs₁, hfield, hcs₁, hwatched⟩ := track_field (b := b) h hcs
  have hdump : line.dump = line.name ++ 58 :: line.blank ++ (line.value ++ [13, 10]) := by
    rw [Line.dump, List.append_assoc, List.cons_append]
  rw [hdump, track_append hfield]
  by_cases hvalue : line.value = []
  · obtain ⟨cs', hblank, hcs', hline⟩ := track_blank (b := b) hcs₁
    rw [hvalue]
    refine ⟨cs', b, hblank, hcs', fun hb => hb.resolve_right hchunked, fun hleaves => .inl ?_⟩
    by_contra hne
    exact hleaves ⟨hvalue, hwatched fun heq => hne (hline heq)⟩
  · obtain ⟨cs', b', htrack, hcs', hb'⟩ := track_value (b := b) hcs₁ hvalue h.value h.head
    refine ⟨cs', b', htrack, ?_, fun hb => hb' (hb.resolve_right hchunked), fun _ => hcs'⟩
    rcases hcs' with rfl | rfl
    · rfl
    · rfl

/-- **The lines**, the last of which leaves no doubt. -/
theorem track_lines {lines : List Line} (h : ∀ line ∈ lines, line.Regular) (hcs : inLine cs = true)
    (hend : lines = [] → cs = 20 ∨ cs = 43) (hb : b = true ∨ ∃ line ∈ lines, line.IsChunked)
    (hlast : ∀ line ∈ lines.getLast?, ¬ line.Leaves) :
    ∃ cs', track every (cs, b) (lines.flatMap Line.dump) = some (cs', true) ∧
      (cs' = 20 ∨ cs' = 43) := by
  induction lines generalizing cs b with
  | nil =>
    obtain rfl : b = true := by simpa using hb
    exact ⟨cs, rfl, hend rfl⟩
  | cons line lines ih =>
    obtain ⟨cs₁, b₁, hline, hcs₁, hflag, hdoubt⟩ := track_line (b := b) (h line (by simp)) hcs
    have hend₁ : lines = [] → cs₁ = 20 ∨ cs₁ = 43 := by
      rintro rfl
      exact hdoubt (hlast line rfl)
    have hb₁ : b₁ = true ∨ ∃ line ∈ lines, line.IsChunked := by
      rcases hb with hb | ⟨line', hmem, hchunked⟩
      · exact .inl (hflag (.inl hb))
      rcases List.mem_cons.mp hmem with rfl | hmem
      · exact .inl (hflag (.inr hchunked))
      · exact .inr ⟨line', hmem, hchunked⟩
    -- only the last line may leave the machine in doubt
    have hlast₁ : ∀ line ∈ lines.getLast?, ¬ line.Leaves := by
      intro line' hmem
      apply hlast line'
      rw [List.getLast?_cons, Option.mem_def.mp hmem]
      rfl
    obtain ⟨cs', htrack, hcs'⟩ :=
      ih (fun line hl => h line (List.mem_cons_of_mem _ hl)) hcs₁ hend₁ hb₁ hlast₁
    refine ⟨cs', ?_, hcs'⟩
    rw [List.flatMap_cons, track_append hline]
    exact htrack

/-! ## Heads -/

theorem advance_status (b : Bool) :
    advance every (15, b) 32 = some (16, b) ∧ advance every (17, b) 32 = some (18, b) ∧
      advance every (18, b) 13 = some (19, b) ∧ advance every (19, b) 10 = some (20, b) ∧
      advance every (19, b) 13 = some (24, b) := by
  cases b <;> decide

/-- The bytes of a text lead into a loop. -/
theorem track_into {cs₀ cs₁ : ℕ}
    (h : edges A (fun q => q = cs₀ || q = cs₁) ok (fun _ q => q = cs₁) = true)
    (hlt : cs₀ < 120 ∧ cs₁ < 120) (hcs : cs = cs₀ ∨ cs = cs₁) (hne : text ≠ [])
    (htext : ∀ c ∈ text, ok c = true) : track A (cs, b) text = some (cs₁, b) := by
  induction text generalizing cs with
  | nil => exact absurd rfl hne
  | cons c text ih =>
    obtain ⟨cs', hadvance, heq⟩ := of_edges (b := b) h (by simpa using hcs)
      (by rcases hcs with rfl | rfl; exacts [hlt.1, hlt.2]) (htext c (by simp))
    obtain rfl : cs' = cs₁ := by simpa using heq
    rw [track_cons hadvance]
    by_cases hnil : text = []
    · rw [hnil, track_nil]
    · exact ih (.inr rfl) hnil fun d hd => htext d (List.mem_cons_of_mem _ hd)

/-- The status and the reason, which may be empty. -/
theorem track_status {status reason : List UInt8} (hne : status ≠ [])
    (hstatus : ∀ c ∈ status, isDigit c = true) (hreason : ∀ c ∈ reason, isText c = true) :
    track every (15, b) (32 :: (status ++ 32 :: (reason ++ [13, 10]))) = some (20, b) := by
  obtain ⟨h15, h17, h18, h19, h19'⟩ := advance_status b
  obtain ⟨h24, -⟩ := advance_feed b
  rw [track_cons h15, track_append (track_into lineEdges.status (by decide) (.inl rfl) hne hstatus),
    track_cons h17]
  by_cases hnil : reason = []
  · rw [hnil, List.nil_append, track_cons h18, track_cons h19, track_nil]
  · rw [track_append (track_into lineEdges.reason (by decide) (.inl rfl) hnil hreason),
      track_cons h19', track_cons h24, track_nil]

/-- **A head** that asks for chunks, behind its version. -/
theorem track_head {head : ResponseHead} (h : head.Regular)
    (hchunked : ∃ line ∈ head.lines, line.IsChunked)
    (hlast : ∀ line ∈ head.lines.getLast?, ¬ line.Leaves) :
    track every (15, b) head.rest = some (3, true) := by
  obtain ⟨cs, hlines, hcs⟩ : ∃ cs, track every (20, b) (head.lines.flatMap Line.dump) =
      some (cs, true) ∧ (cs = 20 ∨ cs = 43) :=
    track_lines h.lines rfl (fun _ => .inl rfl) (.inr hchunked) hlast
  have hreturn : ∀ b, advance every (20, b) 13 = some (3, b) ∧
      advance every (43, b) 13 = some (3, b) := by
    decide
  rw [ResponseHead.rest, track_append (track_status h.status h.digits h.reason),
    track_append hlines]
  rcases hcs with rfl | rfl
  · rw [track_cons (hreturn true).1, track_nil]
  · rw [track_cons (hreturn true).2, track_nil]

theorem length_version {version : List UInt8}
    (h : version ∈ [bytes "HTTP/1.0", bytes "HTTP/1.1"]) : version.length = 8 := by
  rcases List.mem_pair.mp h with rfl | rfl
  · rfl
  · rfl

/-- The version of a message, in one piece. -/
theorem comes_version {s : HttpResponseParser} {version : List UInt8} (text : List UInt8)
    (h : s.At (1, b))
    (hversion : version ∈ [bytes "HTTP/1.0", bytes "HTTP/1.1"]) :
    Comes (version ++ text) s 8 (15, b) text s.restart := by
  have hlen := length_version hversion
  have hsound : Sound (version ++ text) 0 (stage 1) s.restart :=
    h.sound (List.append_ne_nil_of_left_ne_nil (List.ne_nil_of_length_pos (by omega)) _)
  refine ⟨?_, ?_, h.chunked, ?_⟩
  · rw [h.cs]
    rcases List.mem_pair.mp hversion with rfl | rfl
    · rfl
    · rfl
  · refine { hsound with
      mark := Nat.zero_le _
      version := fun _ => ?_
      naming := nofun
      valued := nofun }
    rcases List.mem_pair.mp hversion with rfl | rfl
    · nofun
    · nofun
  · rw [List.length_append, hlen]

/-- The state in front of a byte of the version. -/
def versionState (i : ℕ) : ℕ := if i = 0 then 1 else 7 + i

theorem next_version : ∀ version ∈ [bytes "HTTP/1.0", bytes "HTTP/1.1"], ∀ i : Fin version.length,
    next (versionState i) version[i] =
      some (versionState (i + 1), if (i : ℕ) = 0 then [.mark] else []) := by
  decide

/-- A piece of the version. -/
theorem exec_version (s : HttpResponseParser) (buffer : List UInt8) {version : List UInt8}
    {i p : ℕ} (hversion : version ∈ [bytes "HTTP/1.0", bytes "HTTP/1.1"])
    (htext : text <+: version.drop i) (hp : i = 0 → p = 0) :
    s.restart.exec buffer (versionState i) p text =
      some (s.restart, versionState (i + text.length), p + text.length) := by
  induction text generalizing i p with
  | nil => rfl
  | cons c text ih =>
    obtain ⟨rest, hrest⟩ := htext
    have hi : i < version.length := by
      have hlen := congrArg List.length hrest
      rw [List.length_drop, List.length_append, List.length_cons] at hlen
      omega
    have hdrop := List.drop_eq_getElem_cons hi
    rw [hdrop, List.cons_append] at hrest
    obtain ⟨hc, htail⟩ := List.cons.inj hrest
    have hnext := next_version version hversion ⟨i, hi⟩
    have hedge : next (versionState i) c =
        some (versionState (i + 1), if i = 0 then [.mark] else []) := by
      rw [hc]
      exact hnext
    have hloop := ih (i := i + 1) (p := p + 1) ⟨rest, htail⟩ (by omega)
    rw [Nat.add_assoc, Nat.add_assoc, Nat.add_comm 1] at hloop
    rw [List.length_cons, exec]
    simp only [hedge]
    by_cases hfirst : i = 0
    · -- the mark is at the start of the buffer, where the call has put it
      obtain rfl := hp hfirst
      rw [if_pos hfirst]
      exact hloop
    · rw [if_neg hfirst]
      exact hloop

/-- **A call within the version** takes its buffer. -/
theorem execute_version {s : HttpResponseParser} {version buffer : List UInt8} {i : ℕ}
    (hversion : version ∈ [bytes "HTTP/1.0", bytes "HTTP/1.1"]) (h : s.At (versionState i, b))
    (hne : buffer ≠ []) (hbuffer : buffer <+: version.drop i) :
    ∃ s', s.execute buffer false = some (s', buffer.length, []) ∧
      s'.At (versionState (i + buffer.length), b) := by
  have hexec := exec_version s buffer (p := 0) hversion hbuffer fun _ => rfl
  have hcs : s.parser.cs = versionState i := h.cs
  rw [Nat.zero_add, ← hcs] at hexec
  have hpos := List.length_pos_iff.mpr hne
  have hbounds : (s.restart.stop (versionState (i + buffer.length)) buffer.length).parser.inBounds
      buffer.length := by
    refine ⟨(nread_stop rfl).le, ?_, hpos, Nat.zero_le _, hpos⟩
    exact h.body_start.trans_le (Nat.zero_le _)
  have hcall := execute_of_exec hexec hbounds rfl
  rw [List.drop_length] at hcall
  exact ⟨_, hcall, rfl, h.chunked, h.error, h.body_start⟩

end HttpResponseParser

end Http

end Sylar
