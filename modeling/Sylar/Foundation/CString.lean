import Sylar.Foundation.Text

/-!
# Texts behind a pointer

A text of a known length is stored with a null byte behind it. A pointer into it is an offset. A
read further back leads nowhere. A function that is given the pointer alone takes the text to end at
the first null byte, which may be one of its own.

## Main definitions

* `charAt`: a read
* `memchr`: the search for a byte, read by read
* `cstr`: the text that is seen without its length

## Main results

* `memchr_of_mem`, `memchr_of_not_mem`: what a search to the end of the text finds
-/

namespace Foundation

variable {text front between rest : List UInt8} {c : UInt8} {i n start : ℕ}

/-- The byte at an offset; the last one that there is is the null byte. -/
def charAt (text : List UInt8) (i : ℕ) : Option UInt8 := (text ++ [0])[i]?

/-- `memchr(&text[start], c, n)`: the offset of the first `c`, or none. -/
def memchr (text : List UInt8) (c : UInt8) : ℕ → ℕ → Option (Option ℕ)
  | _, 0 => some none
  | start, n + 1 =>
    (charAt text start).bind fun b =>
      if b = c then some (some start) else memchr text c (start + 1) n

/-- The text in front of the first null byte. -/
def cstr (text : List UInt8) : List UInt8 := text.takeWhile (· ≠ 0)

theorem charAt_of_lt (h : i < text.length) : charAt text i = some text[i] := by
  rw [charAt, List.getElem?_append_left h, List.getElem?_eq_getElem h]

theorem charAt_length : charAt text text.length = some 0 := by
  rw [charAt, List.getElem?_append_right (Nat.le_refl _), Nat.sub_self]
  rfl

/-- The byte behind a beginning of the text. -/
theorem charAt_append (front rest : List UInt8) :
    charAt (front ++ rest) front.length = some (rest.head?.getD 0) := by
  cases rest with
  | nil =>
    rw [List.append_nil]
    exact charAt_length
  | cons b rest =>
    rw [charAt_of_lt (by simp)]
    simp

theorem memchr_of_not_mem (h : c ∉ rest) (front : List UInt8) :
    memchr (front ++ rest) c front.length rest.length = some none := by
  induction rest generalizing front with
  | nil => rfl
  | cons b rest ih =>
    obtain ⟨hne, hrest⟩ := not_or.mp (List.mem_cons.not.mp h)
    rw [List.length_cons, memchr, charAt_append, Option.bind_some, List.head?_cons,
      Option.getD_some, if_neg (Ne.symm hne)]
    simpa using ih hrest (front ++ [b])

/-- The first byte that is `c`. -/
theorem memchr_of_mem (h : c ∉ between) (front rest : List UInt8) :
    memchr (front ++ (between ++ c :: rest)) c front.length (between ++ c :: rest).length =
      some (some (front.length + between.length)) := by
  induction between generalizing front with
  | nil =>
    rw [List.nil_append, List.length_cons, memchr, charAt_append, Option.bind_some,
      List.head?_cons, Option.getD_some, if_pos rfl]
    rfl
  | cons b between ih =>
    obtain ⟨hne, hbetween⟩ := not_or.mp (List.mem_cons.not.mp h)
    rw [List.cons_append, List.length_cons, memchr, charAt_append, Option.bind_some,
      List.head?_cons, Option.getD_some, if_neg (Ne.symm hne)]
    have hnext := ih hbetween (front ++ [b])
    rw [List.append_assoc, List.length_append, List.length_singleton] at hnext
    rw [List.length_cons, ← Nat.add_assoc, Nat.add_right_comm]
    exact hnext

/-- A text has a byte or is cut at its first occurrence. -/
theorem not_mem_or_eq_append (c : UInt8) (text : List UInt8) :
    c ∉ text ∨ ∃ front rest, text = front ++ c :: rest ∧ c ∉ front := by
  by_cases h : c ∈ text
  · obtain ⟨front, rest, heq, hfront⟩ := List.eq_append_cons_of_mem h
    exact .inr ⟨front, rest, heq, hfront⟩
  · exact .inl h

theorem eq_of_cons_append_cons {front' rest' : List UInt8} (hfront : c ∉ front)
    (hfront' : c ∉ front') (h : front ++ c :: rest = front' ++ c :: rest') :
    front = front' ∧ rest = rest' := by
  have hreverse := congrArg List.reverse h
  simp only [List.reverse_append, List.reverse_cons, List.append_assoc, List.singleton_append]
    at hreverse
  have hcut := eq_of_append_cons (c := c) (by simpa using hfront) (by simpa using hfront') hreverse
  exact ⟨List.reverse_inj.mp hcut.2, List.reverse_inj.mp hcut.1⟩

theorem cstr_cons_ne (hc : c ≠ 0) : cstr (c :: text) = c :: cstr text := by
  rw [cstr, List.takeWhile_cons_of_pos (by simpa using hc)]
  rfl

theorem length_cstr_le : (cstr text).length ≤ (cstr (text ++ rest)).length := by
  rw [cstr, cstr, List.takeWhile_append]
  split_ifs with hall
  · rw [hall, List.length_append]
    exact Nat.le_add_right ..
  · exact Nat.le_refl _

end Foundation
