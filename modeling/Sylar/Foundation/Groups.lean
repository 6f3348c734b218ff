import Mathlib.Data.List.TakeWhile

/-!
# Addresses as text

The text form of an address of eight groups of sixteen bits: the groups in hexadecimal, from one to
four digits each, between colons. Two colons in a row, once in a text, stand for one or more groups
that are zero.

`expand` reads such a text, and nothing else.

## Main definitions

* `parseHex`, `parseGroups`: groups between colons
* `cut`, `expand`: the address that a text stands for
* `joined`: groups as text

## Main results

* `cut_joined_append`: groups between colons have no two colons in a row
* `expand_full`, `expand_compressed`: what a text stands for, with all groups or with a run of zero
  groups left out
* `bracket_notMem_joined`: groups as text have no bracket
-/

namespace Foundation

/-! ## Digits -/

/-- The value of a hexadecimal digit. -/
def hexVal (c : Char) : Option ℕ :=
  if '0' ≤ c ∧ c ≤ '9' then some (c.toNat - '0'.toNat)
  else if 'a' ≤ c ∧ c ≤ 'f' then some (c.toNat - 'a'.toNat + 10)
  else if 'A' ≤ c ∧ c ≤ 'F' then some (c.toNat - 'A'.toNat + 10)
  else none

/-- The number that digits stand for. -/
def parseHex (text : List Char) : Option ℕ :=
  text.foldlM (fun n c => (hexVal c).map fun d => 16 * n + d) 0

/-- A number in hexadecimal. -/
def hexText (n : ℕ) : List Char := Nat.toDigits 16 n

theorem hexVal_digitChar : ∀ d < 16, hexVal d.digitChar = some d := by
  decide

theorem hexText_of_lt {n : ℕ} (h : n < 16) : hexText n = [n.digitChar] :=
  Nat.toDigits_of_lt_base h

theorem hexText_of_le {n : ℕ} (h : 16 ≤ n) : hexText n = hexText (n / 16) ++ [(n % 16).digitChar] :=
  Nat.toDigits_of_base_le (by decide) h

theorem parseHex_hexText (n : ℕ) : parseHex (hexText n) = some n := by
  induction n using Nat.strongRecOn with
  | ind n ih =>
    rcases Nat.lt_or_ge n 16 with h | h
    · simp [hexText_of_lt h, parseHex, hexVal_digitChar n h]
    · have hprev := ih (n / 16) (Nat.div_lt_self (by omega) (by decide))
      rw [parseHex] at hprev ⊢
      rw [hexText_of_le h, List.foldlM_append, hprev, Option.bind_eq_bind, Option.bind_some,
        List.foldlM_cons, hexVal_digitChar _ (Nat.mod_lt n (by decide))]
      simp [Nat.div_add_mod]

/-- Only digits are in a number. -/
theorem notMem_hexText {c : Char} (hdigit : ∀ d < 16, d.digitChar ≠ c) (n : ℕ) :
    c ∉ hexText n := by
  induction n using Nat.strongRecOn with
  | ind n ih =>
    rcases Nat.lt_or_ge n 16 with h | h
    · rw [hexText_of_lt h, List.mem_singleton]
      exact (hdigit n h).symm
    · rw [hexText_of_le h, List.mem_append, List.mem_singleton, not_or]
      exact ⟨ih _ (Nat.div_lt_self (by omega) (by decide)),
        (hdigit _ (Nat.mod_lt n (by decide))).symm⟩

theorem colon_notMem_hexText (n : ℕ) : ':' ∉ hexText n :=
  notMem_hexText (by decide) n

theorem exists_hexText (n : ℕ) : ∃ c text, hexText n = c :: text ∧ c ≠ ':' := by
  cases h : hexText n with
  | nil => exact absurd h Nat.toDigits_ne_nil
  | cons c text =>
    refine ⟨c, text, rfl, ?_⟩
    rintro rfl
    exact colon_notMem_hexText n (by simp [h])

/-! ## Groups between colons -/

/-- The group that a text stands for: from one to four digits. -/
def parseGroup (text : List Char) : Option ℕ :=
  if 1 ≤ text.length ∧ text.length ≤ 4 then parseHex text else none

/-- The groups that a text stands for, with one colon between two groups. -/
def parseGroups (text : List Char) : Option (List ℕ) :=
  (text.splitOn ':').mapM parseGroup

/-- Groups in hexadecimal, with one colon between two groups. -/
def joined (groups : List ℕ) : List Char := [':'].intercalate (groups.map hexText)

@[simp] theorem joined_nil : joined [] = [] := rfl

@[simp] theorem joined_singleton (g : ℕ) : joined [g] = hexText g := by
  simp [joined]

theorem joined_cons_cons (g g' : ℕ) (groups : List ℕ) :
    joined (g :: g' :: groups) = hexText g ++ ':' :: joined (g' :: groups) := by
  simp [joined]

theorem joined_snoc {groups : List ℕ} (hne : groups ≠ []) (g : ℕ) :
    joined (groups ++ [g]) = joined groups ++ ':' :: hexText g := by
  induction groups with
  | nil => exact absurd rfl hne
  | cons a groups ih =>
    cases groups with
    | nil => rw [List.singleton_append, joined_cons_cons, joined_singleton, joined_singleton]
    | cons b groups =>
      rw [List.cons_append, List.cons_append, joined_cons_cons, joined_cons_cons,
        List.append_assoc, List.cons_append, ← List.cons_append, ih (List.cons_ne_nil _ _)]

/-- The text of groups begins with a digit. -/
theorem exists_joined {groups : List ℕ} (hne : groups ≠ []) :
    ∃ c text, joined groups = c :: text ∧ c ≠ ':' := by
  cases groups with
  | nil => exact absurd rfl hne
  | cons g groups =>
    obtain ⟨c, text, htext, hc⟩ := exists_hexText g
    cases groups with
    | nil => exact ⟨c, text, by rw [joined_singleton, htext], hc⟩
    | cons b groups => exact ⟨c, _, by rw [joined_cons_cons, htext, List.cons_append], hc⟩

theorem bracket_notMem_joined (groups : List ℕ) : ']' ∉ joined groups := by
  induction groups with
  | nil => exact List.not_mem_nil
  | cons g groups ih =>
    have hg : ']' ∉ hexText g := notMem_hexText (by decide) g
    cases groups with
    | nil => rwa [joined_singleton]
    | cons b groups =>
      rw [joined_cons_cons, List.mem_append, List.mem_cons, not_or, not_or]
      exact ⟨hg, by decide, ih⟩

theorem parseGroup_hexText {g : ℕ} (hg : g < 65536) : parseGroup (hexText g) = some g := by
  obtain ⟨c, text, htext, -⟩ := exists_hexText g
  have hlen : (hexText g).length ≤ 4 := (Nat.length_toDigits_le_iff (by decide) (by decide)).mpr hg
  rw [parseGroup, if_pos ⟨by simp [htext], hlen⟩, parseHex_hexText]

theorem parseGroups_joined {groups : List ℕ} (hne : groups ≠ []) (hg : ∀ g ∈ groups, g < 65536) :
    parseGroups (joined groups) = some groups := by
  have hcolon : ∀ text ∈ groups.map hexText, ':' ∉ text := by
    intro text htext
    obtain ⟨g, -, rfl⟩ := List.mem_map.mp htext
    exact colon_notMem_hexText g
  rw [parseGroups, joined, List.splitOn_intercalate ':' hcolon (by simpa using hne)]
  induction groups with
  | nil => rfl
  | cons g groups ih =>
    rw [List.forall_mem_cons] at hg
    cases groups with
    | nil => simp [parseGroup_hexText hg.1]
    | cons b groups =>
      rw [List.map_cons, List.mapM_cons, parseGroup_hexText hg.1,
        ih (List.cons_ne_nil _ _) hg.2 fun text h => hcolon text (List.mem_cons_of_mem _ h)]
      rfl

/-! ## A run of zero groups -/

/-- A text before and after its first two colons in a row. -/
def cut : List Char → Option (List Char × List Char)
  | [] => none
  | [_] => none
  | c :: d :: text =>
    if c = ':' ∧ d = ':' then some ([], text)
    else (cut (d :: text)).map fun p => (c :: p.1, p.2)

/-- The groups on one side of two colons, possibly none. -/
def side (text : List Char) : Option (List ℕ) :=
  if text = [] then some [] else parseGroups text

/-- The address that a text stands for. -/
def expand (text : List Char) : Option (List ℕ) :=
  match cut text with
  | none => (parseGroups text).bind fun gs => if gs.length = 8 then some gs else none
  | some (l, r) =>
    (side l).bind fun gs => (side r).bind fun hs =>
      if gs.length + hs.length ≤ 7 then
        some (gs ++ List.replicate (8 - (gs.length + hs.length)) 0 ++ hs)
      else none

theorem cut_cons_of_ne {c : Char} (hc : c ≠ ':') (text : List Char) :
    cut (c :: text) = (cut text).map fun p => (c :: p.1, p.2) := by
  cases text with
  | nil => rfl
  | cons d text => rw [cut, if_neg fun h => hc h.1]

theorem cut_colon_of_ne {d : Char} (hd : d ≠ ':') (text : List Char) :
    cut (':' :: d :: text) = (cut (d :: text)).map fun p => (':' :: p.1, p.2) := by
  rw [cut, if_neg fun h => hd h.2]

theorem cut_append {pre : List Char} (hpre : ':' ∉ pre) (text : List Char) :
    cut (pre ++ text) = (cut text).map fun p => (pre ++ p.1, p.2) := by
  induction pre with
  | nil => simp
  | cons c pre ih =>
    rw [List.mem_cons, not_or] at hpre
    rw [List.cons_append, cut_cons_of_ne (Ne.symm hpre.1), ih hpre.2, Option.map_map]
    rfl

theorem cut_joined_append (groups : List ℕ) (text : List Char) :
    cut (joined groups ++ text) = (cut text).map fun p => (joined groups ++ p.1, p.2) := by
  induction groups with
  | nil => simp
  | cons g groups ih =>
    cases groups with
    | nil => rw [joined_singleton, cut_append (colon_notMem_hexText g)]
    | cons b groups =>
      -- the colon behind the first group is followed by a digit
      obtain ⟨d, rest, hrest, hd⟩ := exists_joined (List.cons_ne_nil b groups)
      rw [hrest] at ih
      rw [joined_cons_cons, List.append_assoc, cut_append (colon_notMem_hexText g), hrest,
        List.cons_append, List.cons_append, cut_colon_of_ne hd, ← List.cons_append, ih,
        Option.map_map, Option.map_map]
      congr 1
      funext p
      simp

theorem cut_joined (groups : List ℕ) : cut (joined groups) = none := by
  simpa [cut] using cut_joined_append groups []

theorem side_joined {groups : List ℕ} (hg : ∀ g ∈ groups, g < 65536) :
    side (joined groups) = some groups := by
  rcases eq_or_ne groups [] with rfl | hne
  · rfl
  · obtain ⟨c, text, htext, -⟩ := exists_joined hne
    rw [side, if_neg (by simp [htext]), parseGroups_joined hne hg]

theorem expand_full {groups : List ℕ} (hlen : groups.length = 8) (hg : ∀ g ∈ groups, g < 65536) :
    expand (joined groups) = some groups := by
  have hne : groups ≠ [] := List.ne_nil_of_length_eq_add_one hlen
  simp [expand, cut_joined, parseGroups_joined hne hg, hlen]

theorem expand_compressed {pre rest : List ℕ} {n : ℕ}
    (hlen : pre.length + (n + 1) + rest.length = 8) (hpre : ∀ g ∈ pre, g < 65536)
    (hrest : ∀ g ∈ rest, g < 65536) :
    expand (joined pre ++ ':' :: ':' :: joined rest)
      = some (pre ++ List.replicate (n + 1) 0 ++ rest) := by
  have hcut : cut (joined pre ++ ':' :: ':' :: joined rest) = some (joined pre, joined rest) := by
    rw [cut_joined_append]
    simp [cut]
  have hshort : pre.length + rest.length ≤ 7 := by omega
  have hzeros : 8 - (pre.length + rest.length) = n + 1 := by omega
  simp [expand, hcut, side_joined hpre, side_joined hrest, hshort, hzeros]

end Foundation
