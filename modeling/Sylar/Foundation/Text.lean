import Mathlib.Data.List.Basic

/-!
# Texts of bytes

Strings as lists of bytes, the classes of ASCII, numbers in decimal, and texts with percent
encodings. A text is read byte by byte: `Escape.step` is a machine of three states, and a text is
well formed if the machine comes back to the state it starts in.

## Main definitions

* `bytes`, `isAlpha`, `isDigit`, `isXdigit`: strings and classes of bytes
* `numeral`: the number that digits stand for
* `Escape.step`, `IsText`: texts of certain bytes and of escapes `%XX`

## Main results

* `numeral_toString`: a printed number is read back
* `isText_append_iff`: a text is cut at a byte that is no hexadecimal digit
-/

namespace Foundation

def bytes (s : String) : List UInt8 := s.toList.map fun c => UInt8.ofNat c.toNat

def isAlpha (c : UInt8) : Bool := 65 ≤ c && c ≤ 90 || 97 ≤ c && c ≤ 122

def isDigit (c : UInt8) : Bool := 48 ≤ c && c ≤ 57

def isXdigit (c : UInt8) : Bool := isDigit c || 65 ≤ c && c ≤ 70 || 97 ≤ c && c ≤ 102

theorem isDigit_iff {c : UInt8} : isDigit c = true ↔ 48 ≤ c.toNat ∧ c.toNat ≤ 57 := by
  simp [isDigit, UInt8.le_iff_toNat_le]

/-- What holds of the 256 bytes. -/
theorem forall_byte {P : UInt8 → Prop} (h : ∀ n : Fin 256, P (.ofNat n)) (c : UInt8) : P c := by
  simpa using h ⟨c.toNat, c.toNat_lt⟩

/-- A text is cut at its last separator in one way only. -/
theorem eq_of_append_cons {front front' rest rest' : List UInt8} {c : UInt8} (hrest : c ∉ rest)
    (hrest' : c ∉ rest') (h : front ++ c :: rest = front' ++ c :: rest') :
    front = front' ∧ rest = rest' := by
  rcases List.append_eq_append_iff.mp h with ⟨between, rfl, hb⟩ | ⟨between, rfl, hb⟩
  · cases between with
    | nil => exact ⟨(List.append_nil _).symm, (List.cons.inj hb).2⟩
    | cons d between =>
      obtain ⟨rfl, rfl⟩ := List.cons.inj hb
      exact absurd (by simp) hrest
  · cases between with
    | nil => exact ⟨List.append_nil _, (List.cons.inj hb).2.symm⟩
    | cons d between =>
      obtain ⟨rfl, rfl⟩ := List.cons.inj hb
      exact absurd (by simp) hrest'

section Cut

variable {stop : UInt8 → Bool} {front front' rest rest' : List UInt8}

/-- A text in front of its first separator. -/
theorem takeWhile_append_stop (hfront : ∀ c ∈ front, stop c = false)
    (hrest : ∀ c ∈ rest.head?, stop c = true) :
    (front ++ rest).takeWhile (fun c => !stop c) = front := by
  rw [List.takeWhile_append_of_pos fun c hc => by rw [hfront c hc]; rfl]
  cases rest with
  | nil => rw [List.takeWhile_nil, List.append_nil]
  | cons c rest =>
    rw [List.takeWhile_cons_of_neg (by simp [hrest c rfl]), List.append_nil]

theorem eq_of_append_stop (hfront : ∀ c ∈ front, stop c = false)
    (hrest : ∀ c ∈ rest.head?, stop c = true) (hfront' : ∀ c ∈ front', stop c = false)
    (hrest' : ∀ c ∈ rest'.head?, stop c = true) (h : front ++ rest = front' ++ rest') :
    front = front' ∧ rest = rest' := by
  have heq : front = front' := by
    rw [← takeWhile_append_stop hfront hrest, h, takeWhile_append_stop hfront' hrest']
  subst heq
  exact ⟨rfl, List.append_cancel_left h⟩

end Cut

/-! ## Decimal numbers -/

/-- The number that a list of digits stands for. -/
def numeral (text : List UInt8) : ℕ := text.foldl (fun n c => 10 * n + (c.toNat - 48)) 0

theorem toNat_ofNat_digit {n : ℕ} {d : Char} (hd : d ∈ Nat.toDigits 10 n) :
    (UInt8.ofNat d.toNat).toNat = d.toNat ∧ 48 ≤ d.toNat ∧ d.toNat ≤ 57 := by
  have hdigit := Nat.isDigit_of_mem_toDigits (by decide) (by decide) hd
  have hrange : 48 ≤ d.toNat ∧ d.toNat ≤ 57 := by
    simpa [Char.isDigit, UInt32.le_iff_toNat_le] using hdigit
  exact ⟨UInt8.toNat_ofNat_of_lt' (by simp only [UInt8.size]; omega), hrange⟩

theorem bytes_toString_eq (n : ℕ) :
    bytes (toString n) = (Nat.toDigits 10 n).map fun d => UInt8.ofNat d.toNat := by
  rw [bytes, show (toString n).toList = Nat.toDigits 10 n from Nat.toList_repr]

theorem bytes_toString_ne_nil (n : ℕ) : bytes (toString n) ≠ [] := by
  rw [bytes_toString_eq, Ne, List.map_eq_nil_iff]
  exact Nat.toDigits_ne_nil

/-- The bytes of a number are decimal digits. -/
theorem isDigit_toString (n : ℕ) : ∀ c ∈ bytes (toString n), isDigit c = true := by
  intro c hc
  rw [bytes_toString_eq] at hc
  obtain ⟨d, hd, rfl⟩ := List.mem_map.mp hc
  obtain ⟨heq, hrange⟩ := toNat_ofNat_digit hd
  rw [isDigit_iff, heq]
  exact hrange

/-- **Printing a number** and reading it back. -/
theorem numeral_toString (n : ℕ) : numeral (bytes (toString n)) = n := by
  rw [numeral, bytes_toString_eq, List.foldl_map]
  refine Eq.trans (List.foldl_ext _ _ _ fun sofar d hd => ?_) Nat.ofDigitChars_ten_toDigits
  rw [(toNat_ofNat_digit hd).1]
  rfl

/-! ## Percent encodings -/

/-- Where a text is: between two bytes, or behind the `%` or the first digit of an escape. -/
inductive Escape
  | plain
  | first
  | second
  deriving DecidableEq, Repr

namespace Escape

variable (ok : UInt8 → Bool)

def step : Escape → UInt8 → Option Escape
  | plain, c => if c = 37 then some first else if ok c then some plain else none
  | first, c => if isXdigit c then some second else none
  | second, c => if isXdigit c then some plain else none

variable {ok} {e e' : Escape} {c : UInt8}

/-- A byte that is no hexadecimal digit stands between two escapes. -/
theorem eq_plain_of_step (hc : isXdigit c = false) (h : step ok e c = some e') : e = plain := by
  cases e with
  | plain => rfl
  | first | second =>
    rw [step, hc, if_neg Bool.false_ne_true] at h
    cases h

theorem step_plain (hc : c ≠ 37) : step ok plain c = if ok c then some plain else none := by
  rw [step, if_neg hc]

end Escape

/-- A text of certain bytes and of escapes `%XX`. -/
def IsText (ok : UInt8 → Bool) (text : List UInt8) : Prop :=
  text.foldlM (Escape.step ok) .plain = some .plain

instance (ok : UInt8 → Bool) (text : List UInt8) : Decidable (IsText ok text) := by
  unfold IsText
  infer_instance

section IsText

variable {ok ok' : UInt8 → Bool} {text rest : List UInt8} {c : UInt8}

@[simp] theorem isText_nil : IsText ok [] := rfl

theorem isText_cons (hc : c ≠ 37) : IsText ok (c :: text) ↔ ok c = true ∧ IsText ok text := by
  rw [IsText, List.foldlM_cons, Escape.step_plain hc]
  cases ok c with
  | true => simp [IsText]
  | false => simp

/-- **A text is cut** at a byte that is no part of an escape. -/
theorem isText_append_iff (hc : isXdigit c = false) (hpercent : c ≠ 37) :
    IsText ok (text ++ c :: rest) ↔ IsText ok text ∧ ok c = true ∧ IsText ok rest := by
  constructor
  · intro h
    rw [IsText, List.foldlM_append, Option.bind_eq_bind, Option.bind_eq_some_iff] at h
    obtain ⟨e, htext, hrest⟩ := h
    rw [List.foldlM_cons, Option.bind_eq_bind, Option.bind_eq_some_iff] at hrest
    obtain ⟨e', hstep, hrest⟩ := hrest
    obtain rfl := Escape.eq_plain_of_step hc hstep
    refine ⟨htext, (isText_cons hpercent).mp ?_⟩
    rw [IsText, List.foldlM_cons, hstep]
    exact hrest
  · rintro ⟨htext, hrest⟩
    rw [IsText, List.foldlM_append, htext]
    exact (isText_cons hpercent).mpr hrest

/-- The bytes of a text that are no part of an escape. -/
theorem of_mem_isText (h : IsText ok text) (hmem : c ∈ text) (hc : isXdigit c = false)
    (hpercent : c ≠ 37) : ok c = true := by
  obtain ⟨before, after, rfl⟩ := List.append_of_mem hmem
  exact ((isText_append_iff hc hpercent).mp h).2.1

end IsText

end Foundation
