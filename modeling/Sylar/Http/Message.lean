import Mathlib.Data.List.Lex
import Mathlib.Data.List.Sort
import Sylar.Foundation.SortedSet
import Sylar.Http.Model

/-!
# Requests with a body

An `HttpRequest` as the program handles it, with its body and its connection, and the text that it
prints as. The conversion `lexical_cast` of a length is a parameter.

The headers are a map ordered by `CaseInsensitiveLess`, as the list of its entries in order: the
operations of the map are those of a sorted list.

## Main definitions

* `HttpMessage`, `HttpMessage.dump`: a request with its body, and its text
* `HttpRequest.getHeader`, `HttpRequest.getContentLength`: what the headers say

## Main results

* `caseInsensitiveLess_iff`: the comparator is an order of texts without case
* `setHeader_eq`, `findHeader_eq_some`: the operations of the map
-/

namespace Sylar

open Foundation

namespace Http

/-! ## Messages -/

/-- An `HttpRequest` with what the parser does not set. -/
structure HttpMessage extends HttpRequest where
  close : Bool := true
  body : List UInt8 := []
  deriving DecidableEq, Repr

/-- `m_headers.find(key)`, in the order of the map. -/
def findHeader (key : List UInt8) : List (List UInt8 × List UInt8) → Option (List UInt8)
  | [] => none
  | (k, v) :: rest =>
    if caseInsensitiveLess k key then findHeader key rest
    -- the keys are sorted: behind it there is none
    else if caseInsensitiveLess key k then none
    else some v

def HttpRequest.getHeader (request : HttpRequest) (key : List UInt8) : List UInt8 :=
  (findHeader key request.headers).getD []

/-- The length is 0 when the header is missing or no number. -/
def HttpRequest.getContentLength (lexicalCast : List UInt8 → Option UInt64)
    (request : HttpRequest) : UInt64 :=
  ((findHeader (bytes "content-length") request.headers).bind lexicalCast).getD 0

/-- `strcasecmp(lhs, rhs) == 0`. -/
def strcasecmp (lhs rhs : List UInt8) : Bool :=
  !caseInsensitiveLess lhs rhs && !caseInsensitiveLess rhs lhs

/-- The end of `recvRequest`: the body and the connection are set. -/
def HttpRequest.receive (request : HttpRequest) (body : List UInt8) : HttpMessage :=
  { request with
    close := !strcasecmp (request.getHeader (bytes "Connection")) (bytes "keep-alive")
    body := body }

/-! ## The text of a request -/

def httpMethodToString (m : HttpMethod) : String :=
  ((httpMethodMap.find? fun x => x.1 = m).map (·.2)).getD "<unknown>"

/-- A header in the text of a request; that of the connection has been written before. -/
def dumpHeader (header : List UInt8 × List UInt8) : List UInt8 :=
  if strcasecmp header.1 (bytes "connection") then []
  else header.1 ++ bytes ":" ++ header.2 ++ bytes "\r\n"

/-- `HttpRequest::dump`. -/
def HttpMessage.dump (request : HttpMessage) : List UInt8 :=
  bytes (httpMethodToString request.method) ++ bytes " " ++ request.path ++
    (if request.query = [] then [] else bytes "?") ++ request.query ++
    (if request.fragment = [] then [] else bytes "#") ++ request.fragment ++
    bytes " HTTP/" ++ bytes (toString (request.version.toNat >>> 4)) ++ bytes "." ++
    bytes (toString (request.version.toNat &&& 0x0F)) ++ bytes "\r\n" ++
    bytes "connection: " ++ bytes (if request.close then "close" else "keep-alive") ++
    bytes "\r\n" ++ request.headers.flatMap dumpHeader ++
    if request.body = [] then bytes "\r\n"
    else bytes "content-length: " ++ bytes (toString request.body.length) ++
      bytes "\r\n\r\n" ++ request.body

/-! ## Decimal numbers -/

/-- What `lexical_cast` makes of decimal digits. -/
def decimal (text : List UInt8) : Option UInt64 :=
  let n := text.foldl (fun n c => 10 * n + (c.toNat - 48)) 0
  if text ≠ [] ∧ (text.all fun c => 48 ≤ c && c ≤ 57) ∧ n < 2 ^ 64 then some (.ofNat n) else none

theorem toNat_digit {n : ℕ} {d : Char} (hd : d ∈ Nat.toDigits 10 n) :
    (UInt8.ofNat d.toNat).toNat = d.toNat ∧ 48 ≤ d.toNat ∧ d.toNat ≤ 57 := by
  have hdigit := Nat.isDigit_of_mem_toDigits (by decide) (by decide) hd
  have hrange : 48 ≤ d.toNat ∧ d.toNat ≤ 57 := by
    simpa [Char.isDigit, UInt32.le_iff_toNat_le] using hdigit
  exact ⟨UInt8.toNat_ofNat_of_lt' (by simp only [UInt8.size]; omega), hrange⟩

theorem bytes_toString (n : ℕ) :
    bytes (toString n) = (Nat.toDigits 10 n).map fun d => UInt8.ofNat d.toNat := by
  rw [bytes, show (toString n).toList = Nat.toDigits 10 n from Nat.toList_repr]

/-- The bytes of a number are decimal digits. -/
theorem digits_toString (n : ℕ) : bytes (toString n) ≠ [] ∧
    ∀ c ∈ bytes (toString n), 48 ≤ c.toNat ∧ c.toNat ≤ 57 := by
  rw [bytes_toString]
  constructor
  · rw [Ne, List.map_eq_nil_iff]
    exact Nat.toDigits_ne_nil
  · intro c hc
    obtain ⟨d, hd, rfl⟩ := List.mem_map.mp hc
    obtain ⟨heq, hrange⟩ := toNat_digit hd
    rw [heq]
    exact hrange

/-- **Printing a length** and reading it back. -/
theorem decimal_toString (n : UInt64) : decimal (bytes (toString n.toNat)) = some n := by
  obtain ⟨hne, hdigits⟩ := digits_toString n.toNat
  have hfold : (bytes (toString n.toNat)).foldl (fun n c => 10 * n + (c.toNat - 48)) 0 =
      n.toNat := by
    rw [bytes_toString, List.foldl_map]
    refine Eq.trans (List.foldl_ext _ _ _ fun sofar d hd => ?_) Nat.ofDigitChars_ten_toDigits
    rw [(toNat_digit hd).1]
    rfl
  have hall : ((bytes (toString n.toNat)).all fun c => 48 ≤ c && c ≤ 57) = true := by
    rw [List.all_eq_true]
    intro c hc
    simpa [UInt8.le_iff_toNat_le] using hdigits c hc
  unfold decimal
  rw [hfold]
  simp only
  rw [if_pos ⟨hne, hall, n.toNat_lt⟩, UInt64.ofNat_toNat]

/-! ## The order of the headers -/

/-- A name without case, up to a zero byte. -/
def foldCase (name : List UInt8) : List ℕ :=
  (name.takeWhile (· ≠ 0)).map fun c => (toLower c).toNat

theorem toLower_eq_zero {c : UInt8} : toLower c = 0 ↔ c = 0 := by
  unfold toLower
  split_ifs with h
  · obtain ⟨h₁, h₂⟩ := h
    rw [← UInt8.toNat_inj, ← UInt8.toNat_inj, UInt8.toNat_add]
    rw [UInt8.le_iff_toNat_le] at h₁ h₂
    simp at h₁ h₂ ⊢
    omega
  · rfl

@[simp] theorem foldCase_nil : foldCase [] = [] := rfl

theorem foldCase_cons (c : UInt8) (name : List UInt8) :
    foldCase (c :: name) = if c = 0 then [] else (toLower c).toNat :: foldCase name := by
  by_cases h : c = 0
  · simp [foldCase, h]
  · simp [foldCase, h]

theorem toLower_toNat_inj {c d : UInt8} : (toLower c).toNat = (toLower d).toNat ↔
    toLower c = toLower d := UInt8.toNat_inj

/-- **The comparator** orders names by their texts without case. -/
theorem caseInsensitiveLess_iff (a b : List UInt8) :
    caseInsensitiveLess a b = true ↔ foldCase a < foldCase b := by
  have hzero : toLower 0 = 0 := rfl
  induction a generalizing b with
  | nil =>
    cases b with
    | nil => simp [caseInsensitiveLess]
    | cons d b =>
      rw [foldCase_nil, foldCase_cons]
      split_ifs with hd <;> simp [caseInsensitiveLess, hd]
  | cons c a ih =>
    have hc := toLower_eq_zero (c := c)
    cases b with
    | nil =>
      rw [foldCase_cons, foldCase_nil]
      split_ifs with h <;> simp [caseInsensitiveLess, hzero, hc, h]
    | cons d b =>
      have hd := toLower_eq_zero (c := d)
      have heq := toLower_toNat_inj (c := c) (d := d)
      rw [foldCase_cons, foldCase_cons, caseInsensitiveLess, List.headD_cons, List.tail_cons]
      by_cases h : toLower c = toLower d
      · -- the first letters are the same: both names end, or none
        have hends : c = 0 ↔ d = 0 := by rw [← hc, ← hd, h]
        rw [if_pos h]
        by_cases hz : c = 0
        · simp [hz, hends.mp hz]
        · rw [if_neg hz, if_neg (fun hdz => hz (hends.mpr hdz)), List.cons_lt_cons_iff]
          simp [hz, h, ih]
      · rw [if_neg h]
        by_cases hz : c = 0
        · have hdz : d ≠ 0 := fun hdz => h (by rw [hz, hdz])
          have hpos : toLower d ≠ 0 := fun hl => hdz (hd.mp hl)
          rw [if_pos hz, if_neg hdz, hz, hzero]
          simpa [UInt8.lt_iff_toNat_lt, Nat.pos_iff_ne_zero, ← UInt8.toNat_inj] using hpos
        · rw [if_neg hz]
          by_cases hdz : d = 0
          · rw [if_pos hdz, hdz, hzero]
            simp
          · rw [if_neg hdz, List.cons_lt_cons_iff]
            simp [UInt8.lt_iff_toNat_lt, h, heq]

theorem strcasecmp_eq (a b : List UInt8) :
    strcasecmp a b = decide (foldCase a = foldCase b) := by
  have hless : ∀ a b, caseInsensitiveLess a b = decide (foldCase a < foldCase b) := fun a b => by
    rw [Bool.eq_iff_iff, caseInsensitiveLess_iff, decide_eq_true_iff]
  rw [strcasecmp, hless, hless, Bool.eq_iff_iff]
  simp only [Bool.and_eq_true, Bool.not_eq_true', decide_eq_false_iff_not, decide_eq_true_eq,
    not_lt]
  exact ⟨fun h => le_antisymm h.2 h.1, fun h => ⟨h.ge, h.le⟩⟩

/-! ## The map of the headers -/

/-- The order of the map. -/
def Before (x y : List UInt8 × List UInt8) : Prop := foldCase x.1 < foldCase y.1

instance : DecidableRel Before := fun x y =>
  inferInstanceAs (Decidable (foldCase x.1 < foldCase y.1))

instance : Std.Irrefl Before := ⟨fun x => lt_irrefl (foldCase x.1)⟩

instance : Std.Asymm Before := ⟨fun x y => lt_asymm (a := foldCase x.1) (b := foldCase y.1)⟩

variable {key val : List UInt8} {headers fields : List (List UInt8 × List UInt8)}

/-- Setting a header with a new name is an insertion. -/
theorem setHeader_eq (h : ∀ x ∈ headers, foldCase key ≠ foldCase x.1) :
    setHeader key val headers = insertBy Before (key, val) headers := by
  induction headers with
  | nil => rfl
  | cons x headers ih =>
    have hne := h x (by simp)
    rw [insertBy, setHeader, ih fun y hy => h y (List.mem_cons_of_mem _ hy)]
    simp only [caseInsensitiveLess_iff]
    rcases lt_or_gt_of_ne hne with hlt | hlt
    · have hbefore : Before (key, val) x := hlt
      rw [if_neg (lt_asymm hlt), if_pos hlt, if_pos hbefore]
    · have hbefore : Before x (key, val) := hlt
      have hnot : ¬ Before (key, val) x := lt_asymm hlt
      rw [if_pos hlt, if_neg hnot, if_pos hbefore]

/-- **Setting headers** with names that are all new makes a sorted list with just these more. -/
theorem foldl_setHeader (hsorted : headers.Pairwise Before)
    (hnew : (headers ++ fields).Pairwise fun x y => foldCase x.1 ≠ foldCase y.1) :
    (fields.foldl (fun headers x => setHeader x.1 x.2 headers) headers).Pairwise Before ∧
      ∀ x, x ∈ fields.foldl (fun headers x => setHeader x.1 x.2 headers) headers ↔
        x ∈ headers ∨ x ∈ fields := by
  induction fields generalizing headers with
  | nil => exact ⟨hsorted, by simp⟩
  | cons field fields ih =>
    have hfield : ∀ x ∈ headers, foldCase field.1 ≠ foldCase x.1 := fun x hx =>
      ((List.pairwise_append.mp hnew).2.2 x hx field (by simp)).symm
    have hmem : ∀ x, x ∈ insertBy Before field headers ↔ x = field ∨ x ∈ headers := fun x =>
      mem_insertBy fun y hy => lt_or_gt_of_ne (hfield y hy)
    rw [List.foldl_cons, setHeader_eq hfield]
    obtain ⟨hpairwise, hall⟩ := ih
      (pairwise_insertBy (fun x y z => lt_trans (a := foldCase x.1)) hsorted) (by
        rw [List.pairwise_append] at hnew ⊢
        obtain ⟨-, hfields, hboth⟩ := hnew
        obtain ⟨hfirst, hrest⟩ := List.pairwise_cons.mp hfields
        refine ⟨?_, hrest, ?_⟩
        · exact (pairwise_insertBy (fun x y z => lt_trans (a := foldCase x.1)) hsorted).imp
            fun h => ne_of_lt h
        · intro x hx y hy
          rcases (hmem x).mp hx with rfl | hx
          · exact hfirst y hy
          · exact hboth x hx y (List.mem_cons_of_mem _ hy))
    refine ⟨hpairwise, fun x => ?_⟩
    rw [hall, hmem, List.mem_cons]
    tauto

/-- **Finding a header**: the map has at most one of each name. -/
theorem findHeader_eq_some (hsorted : headers.Pairwise Before) :
    findHeader key headers = some val ↔ ∃ x ∈ headers, foldCase x.1 = foldCase key ∧ x.2 = val := by
  induction headers with
  | nil => simp [findHeader]
  | cons x headers ih =>
    obtain ⟨hfirst, hrest⟩ := List.pairwise_cons.mp hsorted
    obtain ⟨k, v⟩ := x
    rw [findHeader]
    simp only [caseInsensitiveLess_iff, List.exists_mem_cons_iff]
    split_ifs with hlt hgt
    · rw [ih hrest, or_iff_right fun h => (ne_of_lt hlt) h.1]
    · refine iff_of_false (by simp) ?_
      rintro (h | ⟨y, hy, h, -⟩)
      · exact ne_of_gt hgt h.1
      · exact ne_of_gt (lt_trans hgt (hfirst y hy)) h
    · have heq : foldCase k = foldCase key := le_antisymm (not_lt.mp hgt) (not_lt.mp hlt)
      rw [Option.some.injEq]
      refine ⟨fun h => .inl ⟨heq, h⟩, ?_⟩
      rintro (h | ⟨y, hy, h, -⟩)
      · exact h.2
      · exact absurd (heq.trans h.symm) (ne_of_lt (hfirst y hy))

end Http

end Sylar
