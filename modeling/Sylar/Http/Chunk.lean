import Sylar.Foundation.Signed
import Sylar.Http.ClientGrammar

/-!
# The header of a chunk

A chunk starts with its size in hexadecimal digits and, behind semicolons, with extensions, each a
name or a name and a value. A call that begins with such a header takes it up to the end of its line
and keeps the size.

## Main definitions

* `ChunkHeader`, `ChunkHeader.Regular`, `ChunkHeader.value`: the header, and the size that it gives

## Main results

* `strtol_size`: the size that the parser reads
* `execute_chunk`: a call that begins with a header
-/

namespace Sylar

open Foundation

namespace Http

/-- An extension of a chunk. -/
structure Extension where
  name : List UInt8
  value : Option (List UInt8)

namespace Extension

/-- What stands behind the semicolon. -/
def text (ext : Extension) : List UInt8 :=
  ext.name ++ match ext.value with
    | none => []
    | some value => 61 :: value

structure Regular (ext : Extension) : Prop where
  named : ext.name ≠ []
  name : ∀ c ∈ ext.name, isToken c = true
  valued : ext.value ≠ some []
  value : ∀ value ∈ ext.value, ∀ c ∈ value, isToken c = true

end Extension

structure ChunkHeader where
  size : List UInt8
  extensions : List Extension

namespace ChunkHeader

def dump (header : ChunkHeader) : List UInt8 :=
  header.size ++ (header.extensions.flatMap (fun ext => 59 :: ext.text) ++ [13, 10])

structure Regular (header : ChunkHeader) : Prop where
  sized : header.size ≠ []
  size : ∀ c ∈ header.size, isXdigit c = true
  extensions : ∀ ext ∈ header.extensions, ext.Regular

/-- The number that the digits of the size are. -/
def value (header : ChunkHeader) : ℕ := digitsValue 16 0 header.size

end ChunkHeader

/-! ## Sizes -/

variable {c : UInt8} {digits rest : List UInt8} {n : ℕ}

theorem xdigit_class : ∀ n : Fin 256, isXdigit (.ofNat n) = true →
    isSpace (.ofNat n) = false ∧ UInt8.ofNat n ≠ 43 ∧ UInt8.ofNat n ≠ 45 ∧ UInt8.ofNat n ≠ 120 ∧
      UInt8.ofNat n ≠ 88 ∧ (digitValue 16 (.ofNat n)).isSome := by
  decide +kernel

theorem digitsValue_append (n : ℕ) (rest : List UInt8) (hdigits : ∀ c ∈ digits, isXdigit c = true)
    (hc : digitValue 16 c = none) :
    digitsValue 16 n (digits ++ c :: rest) = digitsValue 16 n digits := by
  induction digits generalizing n with
  | nil => simp only [List.nil_append, digitsValue, hc]
  | cons d digits ih =>
    have hd := xdigit_class ⟨d.toNat, d.toNat_lt⟩
    simp only [UInt8.ofNat_toNat] at hd
    obtain ⟨-, -, -, -, -, hsome⟩ := hd (hdigits d (by simp))
    obtain ⟨k, hk⟩ := Option.isSome_iff_exists.mp hsome
    simp only [List.cons_append, digitsValue, hk]
    exact ih _ fun e he => hdigits e (List.mem_cons_of_mem _ he)

/-- **The size** of a chunk in front of its extensions or of the line end. -/
theorem strtol_size (rest : List UInt8) (hne : digits ≠ [])
    (hdigits : ∀ c ∈ digits, isXdigit c = true) (hc : c = 59 ∨ c = 13) (hsize : digitsValue 16 0 digits < 2 ^ 31) :
    longToInt (strtol 16 (digits ++ c :: rest)) = digitsValue 16 0 digits := by
  have hnone : digitValue 16 c = none := by
    rcases hc with rfl | rfl
    · rfl
    · rfl
  have hvalue := digitsValue_append 0 rest hdigits hnone
  have hclass : ∀ d ∈ digits, isSpace d = false ∧ d ≠ 43 ∧ d ≠ 45 ∧ d ≠ 120 ∧ d ≠ 88 := by
    intro d hd
    have h := xdigit_class ⟨d.toNat, d.toNat_lt⟩
    simp only [UInt8.ofNat_toNat] at h
    obtain ⟨h₁, h₂, h₃, h₄, h₅, -⟩ := h (hdigits d hd)
    exact ⟨h₁, h₂, h₃, h₄, h₅⟩
  cases digits with
  | nil => exact absurd rfl hne
  | cons d digits =>
    obtain ⟨hspace, hplus, hminus, -⟩ := hclass d (by simp)
    have hprefix : dropPrefix 16 (d :: digits ++ c :: rest) = d :: digits ++ c :: rest := by
      unfold dropPrefix
      rw [if_neg]
      rintro ⟨-, -, hx, -⟩
      cases digits with
      | nil => rcases hc with rfl | rfl <;> simp at hx
      | cons e digits =>
        obtain ⟨-, -, -, h120, h88⟩ := hclass e (by simp)
        simp [h120, h88] at hx
    have hstrtol : strtol 16 (d :: digits ++ c :: rest) =
        (min (digitsValue 16 0 (d :: digits)) (2 ^ 63 - 1) : ℕ) := by
      unfold strtol
      rw [List.cons_append, List.dropWhile_cons, hspace]
      simp only [Bool.false_eq_true, if_false, List.head?_cons, Option.some.injEq, hplus, hminus,
        or_self]
      rw [← List.cons_append, hprefix, hvalue]
    rw [hstrtol, Nat.min_eq_left (by omega)]
    exact signed32_of_lt hsize

namespace HttpResponseParser

variable {b : Bool} {cs p : ℕ} {buffer left : List UInt8} {s : HttpResponseParser}

/-! ## Extensions -/

/-- The actions that keep the size. -/
def keeping (a : ClientAction) : Bool := a ≠ .write_content_len && a ≠ .chunk_size

theorem kept_act {n : Int} {done : Bool} {a : ClientAction} {s' : HttpResponseParser}
    (ha : keeping a = true) (h : s.act buffer p a = some s')
    (hs : s.parser.content_len = n ∧ s.parser.chunks_done = done) :
    s'.parser.content_len = n ∧ s'.parser.chunks_done = done := by
  cases a with
  | mark | start_value | start_field | write_field | write_connection_close | trans_chunked
  | status_code | done =>
    obtain rfl := Option.some.inj h
    exact hs
  | reason_phrase =>
    obtain ⟨reason, -, rfl⟩ := Option.map_eq_some_iff.mp h
    exact hs
  | http_version =>
    obtain rfl := Option.some.inj h
    unfold onResponseVersion
    split
    · exact hs
    · exact hs
  | write_value =>
    simp only [act, onResponseHttpField] at h
    split_ifs at h
    · obtain rfl := Option.some.inj h
      exact hs
    · obtain ⟨key, -, hval⟩ := Option.bind_eq_some_iff.mp h
      obtain ⟨val, -, rfl⟩ := Option.map_eq_some_iff.mp hval
      exact hs
  | write_content_len | chunk_size => cases ha

theorem edges_extension :
    edges keeping (fun cs => cs = 4 || cs = 5) isToken (fun _ cs' => cs' = 5) = true ∧
      edges keeping (fun cs => cs = 6 || cs = 7) isToken (fun _ cs' => cs' = 7) = true := by
  decide +kernel

theorem advance_extension (b : Bool) :
    advance keeping (5, b) 61 = some (6, b) ∧ advance keeping (5, b) 59 = some (4, b) ∧
      advance keeping (7, b) 59 = some (4, b) ∧ advance keeping (5, b) 13 = some (3, b) ∧
      advance keeping (7, b) 13 = some (3, b) := by
  cases b <;> decide

/-- An extension, behind its semicolon. -/
theorem track_extension {ext : Extension} (h : ext.Regular) :
    ∃ cs, track keeping (4, b) ext.text = some (cs, b) ∧ (cs = 5 ∨ cs = 7) := by
  obtain ⟨hname, hvalue⟩ := edges_extension
  obtain ⟨hequals, -⟩ := advance_extension b
  have htrack := track_into (b := b) hname (by decide) (.inl rfl) h.named h.name
  rw [Extension.text, track_append htrack]
  cases heq : ext.value with
  | none => exact ⟨5, rfl, .inl rfl⟩
  | some value =>
    have hne : value ≠ [] := fun hnil => h.valued (heq.trans (congrArg some hnil))
    refine ⟨7, ?_, .inr rfl⟩
    simp only
    rw [track_cons hequals]
    exact track_into hvalue (by decide) (.inl rfl) hne (h.value value heq)

/-- Further extensions, and the end of the line. -/
theorem track_extensions {exts : List Extension} (h : ∀ ext ∈ exts, ext.Regular)
    (hcs : cs = 5 ∨ cs = 7) :
    track keeping (cs, b) (exts.flatMap (fun ext => 59 :: ext.text) ++ [13]) = some (3, b) := by
  obtain ⟨-, h5, h7, h5', h7'⟩ := advance_extension b
  induction exts generalizing cs with
  | nil =>
    rcases hcs with rfl | rfl
    · exact track_cons h5'
    · exact track_cons h7'
  | cons ext exts ih =>
    obtain ⟨cs', hext, hcs'⟩ := track_extension (b := b) (h ext (by simp))
    have hrest := ih (fun ext he => h ext (List.mem_cons_of_mem _ he)) hcs'
    have hsemicolon : advance keeping (cs, b) 59 = some (4, b) := by
      rcases hcs with rfl | rfl
      · exact h5
      · exact h7
    rw [List.flatMap_cons, List.cons_append, List.cons_append, track_cons hsemicolon,
      List.append_assoc, track_append hext, hrest]

/-! ## Headers -/

theorem next_size : ∀ n : Fin 256, isXdigit (.ofNat n) = true →
    next 1 (.ofNat n) = some (2, [.mark]) ∧ next 2 (.ofNat n) = some (2, []) := by
  decide +kernel

/-- The digits behind the first one. -/
theorem exec_digits {digits rest : List UInt8} (h : ∀ c ∈ digits, isXdigit c = true) :
    s.exec buffer 2 p (digits ++ rest) = s.exec buffer 2 (p + digits.length) rest := by
  induction digits generalizing p with
  | nil => rfl
  | cons c digits ih =>
    have hnext := next_size ⟨c.toNat, c.toNat_lt⟩
    simp only [UInt8.ofNat_toNat] at hnext
    have hrest := ih (p := p + 1) fun d hd => h d (List.mem_cons_of_mem _ hd)
    rw [Nat.add_assoc, Nat.add_comm 1] at hrest
    rw [List.cons_append, exec]
    simp only [(hnext (h c (by simp))).2]
    exact hrest

/-- The parser behind the size of a chunk. -/
def sized (n : ℕ) (s : HttpResponseParser) : HttpResponseParser :=
  s.update fun x => { x with chunked := true, content_len := n, chunks_done := (n : Int) ≤ 0 }

/-- The parser at the start of a chunk. -/
def fresh (s : HttpResponseParser) : HttpResponseParser := s.update HttpclientParser.init

theorem at_fresh (h : s.error = 0) : s.fresh.At (1, false) := ⟨rfl, rfl, h, rfl⟩

/-- **The size**, with the byte behind it. -/
theorem comes_size {digits : List UInt8} {c : UInt8} (rest : List UInt8) (h : s.error = 0)
    (hne : digits ≠ []) (hdigits : ∀ c ∈ digits, isXdigit c = true) (hc : c = 59 ∨ c = 13)
    (hsize : digitsValue 16 0 digits < 2 ^ 31) :
    Comes (digits ++ c :: rest) s.fresh (digits.length + 1) (if c = 59 then 4 else 3, true) rest
      (s.fresh.restart.sized (digitsValue 16 0 digits)) := by
  have hnumber := strtol_size rest hne hdigits hc hsize
  have hsound : Sound (digits ++ c :: rest) 0 (stage 1) s.fresh.restart :=
    (at_fresh h).sound (List.append_ne_nil_of_left_ne_nil hne _)
  have hnext : next 2 c = some (if c = 59 then 4 else 3, [.chunk_size]) := by
    rcases hc with rfl | rfl
    · rfl
    · rfl
  have hact : ∀ p, act (digits ++ c :: rest) p s.fresh.restart .chunk_size =
      some (s.fresh.restart.sized (digitsValue 16 0 digits)) := by
    intro p
    simp only [act, restart, fresh, update, HttpclientParser.init, sized, List.drop_zero, hnumber]
  refine ⟨?_, ?_, rfl, ?_⟩
  · rw [(at_fresh h).cs]
    generalize hbuffer : digits ++ c :: rest = buffer at hact ⊢
    cases digits with
    | nil => exact absurd rfl hne
    | cons d digits =>
      have hfirst := next_size ⟨d.toNat, d.toNat_lt⟩
      simp only [UInt8.ofNat_toNat] at hfirst
      -- the first digit is marked, at the start of the buffer
      have hmark : exec buffer s.fresh.restart 1 0 buffer =
          exec buffer s.fresh.restart 2 1 (digits ++ c :: rest) := by
        rw [← hbuffer, List.cons_append, exec]
        simp only [(hfirst (hdigits d (by simp))).1]
        rfl
      have hloop : exec buffer s.fresh.restart 2 1 (digits ++ c :: rest) =
          exec buffer s.fresh.restart 2 (1 + digits.length) (c :: rest) :=
        exec_digits fun e he => hdigits e (List.mem_cons_of_mem _ he)
      have hlast : exec buffer s.fresh.restart 2 (1 + digits.length) (c :: rest) =
          exec buffer (s.fresh.restart.sized (digitsValue 16 0 (d :: digits)))
            (if c = 59 then 4 else 3) (1 + digits.length + 1) rest := by
        rw [exec]
        simp only [hnext, List.foldlM_cons, hact, Option.bind_eq_bind, Option.bind_some]
        rfl
      rw [hmark, hloop, hlast, List.length_cons, Nat.add_comm 1]
  · have hplain : stage (if c = 59 then 4 else 3) = .plain := by
      rcases hc with rfl | rfl
      · rfl
      · rfl
    simp only [hplain]
    exact { hsound with
      mark := Nat.zero_le _
      version := fun h => by cases h
      naming := fun h => by cases h
      valued := fun h => by cases h }
  · rw [List.length_append, List.length_cons]
    omega

/-- A call on a header whose bytes behind the size are known. -/
theorem execute_size {header : ChunkHeader} {c : UInt8} (text : List UInt8) (h : s.error = 0)
    (hheader : header.Regular) (hsize : header.value < 2 ^ 31) (hc : c = 59 ∨ c = 13)
    (hdump : header.dump ++ left = header.size ++ c :: (text ++ 10 :: left))
    (htrack : track keeping (if c = 59 then 4 else 3, true) text = some (3, true)) :
    ∃ s', s.execute (header.dump ++ left) true = some (s', header.dump.length, left) ∧
      s'.error = 0 ∧ s'.parser.cs = 120 ∧ s'.parser.content_len = header.value ∧
      s'.parser.chunks_done = decide (header.value = 0) := by
  have hcomes := comes_size (text ++ 10 :: left) h hheader.sized hheader.size hc hsize
  obtain ⟨s₂, n, hexec, hn, herror, -, hlen, hdone⟩ := hcomes.execute_done
    (fun _ _ _ _ ha hact hs => kept_act ha hact hs) htrack ⟨rfl, rfl⟩
  have hlength : n = header.dump.length := by
    have hlen := congrArg List.length hdump
    simp only [List.length_append, List.length_cons] at hlen
    omega
  rw [← hdump, hlength, List.drop_left] at hexec
  refine ⟨_, hexec, herror, rfl, hlen, hdone.trans (decide_eq_decide.mpr ?_)⟩
  unfold ChunkHeader.value
  omega

/-- **A call that begins with the header of a chunk** takes it, and keeps the size. -/
theorem execute_chunk {header : ChunkHeader} (h : s.error = 0) (hheader : header.Regular)
    (hsize : header.value < 2 ^ 31) (left : List UInt8) :
    ∃ s', s.execute (header.dump ++ left) true = some (s', header.dump.length, left) ∧
      s'.error = 0 ∧ s'.parser.cs = 120 ∧ s'.parser.content_len = header.value ∧
      s'.parser.chunks_done = decide (header.value = 0) := by
  have hexts := hheader.extensions
  cases heq : header.extensions with
  | nil =>
    refine execute_size [] h hheader hsize (.inr rfl) ?_ rfl
    rw [ChunkHeader.dump, heq, List.flatMap_nil, List.nil_append, List.append_assoc]
    rfl
  | cons ext exts =>
    rw [heq] at hexts
    obtain ⟨cs, hext, hcs⟩ := track_extension (b := true) (hexts ext (by simp))
    have hrest := track_extensions (b := true)
      (fun ext he => hexts ext (List.mem_cons_of_mem _ he)) hcs
    refine execute_size (c := 59) _ h hheader hsize (.inl rfl) ?_ ((track_append hext).trans hrest)
    rw [ChunkHeader.dump, heq, List.flatMap_cons]
    simp only [List.append_assoc, List.cons_append, List.nil_append]

end HttpResponseParser

end Http

end Sylar
