import Mathlib.Algebra.Order.Ring.Nat
import Mathlib.Tactic.SplitIfs
import Sylar.Log.Model

/-!
# Patterns of a format

A pattern is spelled by tokens: a text without `%`, the escape `%%`, and a directive `%k` or
`%k{fmt}`. `init` reads it byte by byte. At an escape it appends a `%` to the text and goes on at
the second `%`, which is then read as the start of a directive: the escape comes out as one more `%`
than it should, or the text behind it as a directive.

## Main definitions

* `items`: what a formatter writes
* `Token`, `spell`: the tokens, and the pattern they spell
* `WellFormed`: the tokens can be told apart in the pattern
* `Output`: what is written, a text byte by byte

## Main results

* `split_turns`: the loop is over after as many turns as the pattern has bytes
* `split_spell`: without escapes the loop finds the tokens
* `pattern_tokens_iff`: the items are the tokens exactly if none is an escape
-/

namespace Sylar

namespace Log

namespace LogFormatter

/-! ## Items -/

/-- An element of `m_items`: a `StringFormatItem`, or the item of a key with its format. -/
inductive FormatItem
  | string (str : List UInt8)
  | item (key fmt : List UInt8)
  deriving DecidableEq

/-- The item that `init` makes of an element of `vec`. -/
def Piece.toItem (piece : Piece) : FormatItem :=
  -- literal text
  if piece.directive = false then .string piece.str
  else if formatItems.contains piece.str then .item piece.str piece.fmt
  else .string (bytes "<< error_format %" ++ piece.str ++ bytes ">>")

/-- `m_items`. -/
def items (pattern : List UInt8) : List FormatItem := (init pattern).1.map Piece.toItem

/-- What is written: a byte of a text, or what a key stands for, with its format. -/
abbrev Output := UInt8 ⊕ List UInt8 × List UInt8

def FormatItem.output : FormatItem → List Output
  | string str => str.map .inl
  | item key fmt => [.inr (key, fmt)]

/-- What the pieces write, if every key is registered. -/
def Piece.output (piece : Piece) : List Output :=
  if piece.directive then [.inr (piece.str, piece.fmt)] else piece.str.map .inl

theorem Piece.output_toItem {piece : Piece}
    (h : (piece.directive && piece.str ∉ formatItems) = false) :
    piece.toItem.output = piece.output := by
  unfold toItem output
  cases hdirective : piece.directive with
  | false => rfl
  | true =>
    rw [hdirective, Bool.true_and, decide_eq_false_iff_not] at h
    rw [if_neg (by decide), if_pos (List.contains_iff_mem.mpr (not_not.mp h))]
    rfl

/-! ## The loop -/

section Loop

variable {turns : ℕ} {c : UInt8} {rest nstr str fmt : List UInt8}

theorem length_readName (rest : List UInt8) : (readName rest).2.length ≤ rest.length := by
  induction rest with
  | nil => exact Nat.le_refl 0
  | cons c rest ih =>
    rw [readName]
    split_ifs
    · exact ih.trans (Nat.le_succ _)
    · exact Nat.le_refl _

theorem length_readFmt {r : List UInt8 × List UInt8} (h : readFmt rest = some r) :
    r.2.length < rest.length := by
  induction rest generalizing r with
  | nil => cases h
  | cons c rest ih =>
    rw [readFmt] at h
    split_ifs at h
    · obtain rfl := Option.some.inj h
      exact Nat.lt_succ_self _
    · obtain ⟨r', hr', rfl⟩ := Option.map_eq_some_iff.mp h
      exact (ih hr').trans (Nat.lt_succ_self _)

/-- A directive ends behind its `%`, or further on. -/
theorem length_readDirective {r : List UInt8 × List UInt8 × List UInt8}
    (h : readDirective rest = some r) : r.2.2.length ≤ rest.length := by
  have hname := length_readName rest
  unfold readDirective at h
  simp only at h
  cases hrest : (readName rest).2 with
  | nil =>
    rw [hrest] at h
    obtain rfl := Option.some.inj h
    exact Nat.zero_le _
  | cons c more =>
    rw [hrest] at h hname
    simp only at h
    split_ifs at h
    · obtain ⟨f, hf, rfl⟩ := Option.map_eq_some_iff.mp h
      have hfmt := length_readFmt hf
      rw [List.length_cons] at hname
      simp only
      omega
    · obtain rfl := Option.some.inj h
      exact hname

/-- **The loop is over** after as many turns as there are bytes. -/
theorem split_turns {pattern : List UInt8} (h : pattern.length ≤ turns) (nstr : List UInt8) :
    split turns pattern nstr = split pattern.length pattern nstr := by
  induction hlen : pattern.length using Nat.strong_induction_on generalizing turns pattern nstr with
  | _ n ih =>
    cases pattern with
    | nil => cases turns <;> cases n <;> rfl
    | cons c rest =>
      obtain ⟨turns, rfl⟩ := Nat.exists_eq_succ_of_ne_zero (Nat.ne_zero_of_lt (Nat.lt_of_succ_le h))
      subst hlen
      -- what is left is shorter, and so it is read alike
      have hrest {more : List UInt8} (hmore : more.length ≤ rest.length) (nstr : List UInt8) :
          split turns more nstr = split rest.length more nstr := by
        have hle : rest.length ≤ turns := Nat.le_of_succ_le_succ h
        rw [ih more.length (Nat.lt_succ_of_le hmore) (hmore.trans hle) nstr rfl,
          ← ih more.length (Nat.lt_succ_of_le hmore) hmore nstr rfl]
      rw [List.length_cons, split, split, hrest (Nat.le_refl _), hrest (Nat.le_refl _)]
      cases hdirective : readDirective rest with
      | none =>
        simp only
        rw [hrest (Nat.le_refl _)]
      | some r =>
        obtain ⟨str, fmt, more⟩ := r
        simp only
        rw [hrest (length_readDirective hdirective)]

end Loop

/-! ## Tokens -/

/-- A token: a text without `%`, the escape `%%`, or a directive with its letter. -/
inductive Token
  | literal (text : List UInt8)
  | percent
  | directive (k : UInt8) (fmt : Option (List UInt8))
  deriving DecidableEq

namespace Token

def spell : Token → List UInt8
  | literal text => text
  | percent => [37, 37]
  | directive k none => [37, k]
  | directive k (some fmt) => 37 :: k :: 123 :: (fmt ++ [125])

def output : Token → List Output
  | literal text => text.map .inl
  | percent => [.inl 37]
  | directive k fmt => [.inr ([k], fmt.getD [])]

end Token

/-- The pattern that tokens spell. -/
def spell (tokens : List Token) : List UInt8 := tokens.flatMap Token.spell

def output (tokens : List Token) : List Output := tokens.flatMap Token.output

/-- **The tokens can be told apart**: the letters are registered, a format ends at its `}`, and a
directive without a format at the end, at a `%` or at another byte that is no letter and no
brace. -/
def WellFormed : List Token → Prop
  | [] => True
  | .literal text :: tokens => 37 ∉ text ∧ WellFormed tokens
  | .percent :: tokens => WellFormed tokens
  | .directive k none :: tokens =>
    [k] ∈ formatItems ∧
      (∀ c ∈ (spell tokens).head?, isalpha c = false ∧ c ≠ 123 ∧ c ≠ 125) ∧ WellFormed tokens
  | .directive k (some fmt) :: tokens => [k] ∈ formatItems ∧ 125 ∉ fmt ∧ WellFormed tokens

/-- What the pieces of a pattern write. -/
def written (pieces : List Piece) : List Output := pieces.flatMap Piece.output

section Split

variable {turns : ℕ} {c k : UInt8} {rest nstr name fmt : List UInt8} {tokens : List Token}

theorem written_text (nstr : List UInt8) : written (text nstr) = nstr.map .inl := by
  unfold text
  split_ifs with hnil
  · rw [hnil]
    rfl
  · rw [written, List.flatMap_singleton]
    rfl

theorem isalpha_of_mem (h : [k] ∈ formatItems) : isalpha k = true := by
  have hall : ∀ name ∈ formatItems, ∀ k ∈ name, isalpha k = true := by decide +kernel
  exact hall [k] h k (List.mem_singleton_self k)

theorem readFmt_append (h : 125 ∉ fmt) : readFmt (fmt ++ 125 :: rest) = some (fmt, rest) := by
  induction fmt with
  | nil => rfl
  | cons c fmt ih =>
    obtain ⟨hne, hfmt⟩ := not_or.mp (List.mem_cons.not.mp h)
    rw [List.cons_append, readFmt, if_neg (Ne.symm hne), ih hfmt]
    rfl

/-- A letter with a format behind it. -/
theorem readDirective_fmt (hk : [k] ∈ formatItems) (hfmt : 125 ∉ fmt) :
    readDirective (k :: 123 :: (fmt ++ 125 :: rest)) = some ([k], fmt, rest) := by
  have hname : readName (k :: 123 :: (fmt ++ 125 :: rest)) =
      ([k], 123 :: (fmt ++ 125 :: rest)) := by
    rw [readName, isalpha_of_mem hk, Bool.true_or, if_pos rfl, readName, if_neg (by decide)]
  rw [readDirective, hname]
  exact (if_pos rfl).trans (congrArg (Option.map _) (readFmt_append hfmt))

/-- A letter alone. -/
theorem readDirective_letter (hk : [k] ∈ formatItems)
    (hrest : ∀ c ∈ rest.head?, isalpha c = false ∧ c ≠ 123 ∧ c ≠ 125) :
    readDirective (k :: rest) = some ([k], [], rest) := by
  have hname : readName (k :: rest) = ([k], rest) := by
    rw [readName, isalpha_of_mem hk, Bool.true_or, if_pos rfl]
    cases rest with
    | nil => rfl
    | cons c rest =>
      obtain ⟨halpha, -, hclose⟩ := hrest c rfl
      rw [readName, halpha, Bool.false_or, if_neg (by simpa using hclose)]
  rw [readDirective, hname]
  cases rest with
  | nil => rfl
  | cons c rest => exact if_neg (hrest c rfl).2.1

theorem ne_percent_of_mem (h : [k] ∈ formatItems) : k ≠ 37 := by
  rintro rfl
  exact absurd (isalpha_of_mem h) (by decide)

/-- The turns over a text without `%`. -/
theorem split_literal {text : List UInt8} (htext : 37 ∉ text)
    (hlen : (text ++ rest).length ≤ turns) (nstr : List UInt8) :
    ∃ left, rest.length ≤ left ∧
      split turns (text ++ rest) nstr = split left rest (nstr ++ text) := by
  induction text generalizing turns nstr with
  | nil => exact ⟨turns, hlen, by rw [List.append_nil, List.nil_append]⟩
  | cons c text ih =>
    obtain ⟨hne, htext⟩ := not_or.mp (List.mem_cons.not.mp htext)
    obtain ⟨turns, rfl⟩ :=
      Nat.exists_eq_succ_of_ne_zero (Nat.ne_zero_of_lt (Nat.lt_of_succ_le hlen))
    obtain ⟨left, hleft, heq⟩ := ih htext (Nat.le_of_succ_le_succ hlen) (nstr ++ [c])
    refine ⟨left, hleft, ?_⟩
    rw [List.cons_append, split, if_pos (Ne.symm hne), heq, List.append_assoc]
    rfl

/-- The turn of a directive. -/
theorem split_directive {r : List UInt8 × List UInt8 × List UInt8} (hhead : rest.head? ≠ some 37)
    (h : readDirective rest = some r) :
    split (turns + 1) (37 :: rest) nstr =
      (text nstr ++ ⟨r.1, r.2.1, true⟩ :: (split turns r.2.2 []).1, (split turns r.2.2 []).2) := by
  rw [split, if_neg (not_not_intro rfl), if_neg hhead, h]

/-- The turn of the first of two `%`. -/
theorem split_percent : split (turns + 1) (37 :: 37 :: rest) nstr =
    split turns (37 :: rest) (nstr ++ [37]) := by
  rw [split, if_neg (not_not_intro rfl), List.head?_cons, if_pos rfl]

/-- A directive that is a token, with the tokens behind it. -/
theorem readDirective_token {f : Option (List UInt8)}
    (h : WellFormed (.directive k f :: tokens)) :
    ∃ more, spell (.directive k f :: tokens) = 37 :: k :: more ∧ k ≠ 37 ∧
      [k] ∈ formatItems ∧ WellFormed tokens ∧
      readDirective (k :: more) = some ([k], f.getD [], spell tokens) := by
  cases f with
  | none =>
    obtain ⟨hk, hrest, htokens⟩ := h
    exact ⟨spell tokens, rfl, ne_percent_of_mem hk, hk, htokens, readDirective_letter hk hrest⟩
  | some fmt =>
    obtain ⟨hk, hfmt, htokens⟩ := h
    refine ⟨123 :: (fmt ++ 125 :: spell tokens), ?_, ne_percent_of_mem hk, hk, htokens,
      readDirective_fmt hk hfmt⟩
    rw [spell, List.flatMap_cons, Token.spell]
    simp [spell]

/-- **Without escapes** the loop finds the tokens, and no error. -/
theorem split_spell (h : WellFormed tokens) (hpercent : Token.percent ∉ tokens)
    (hlen : (spell tokens).length ≤ turns) (nstr : List UInt8) :
    (split turns (spell tokens) nstr).2 = false ∧
      (∀ piece ∈ (split turns (spell tokens) nstr).1, piece.directive = true →
        piece.str ∈ formatItems) ∧
      written (split turns (spell tokens) nstr).1 = nstr.map .inl ++ output tokens := by
  induction tokens generalizing turns nstr with
  | nil =>
    have hend : split turns (spell []) nstr = (text nstr, false) := by
      cases turns <;> rfl
    rw [hend]
    refine ⟨rfl, fun piece hpiece hdirective => ?_, ?_⟩
    · unfold text at hpiece
      split_ifs at hpiece
      · cases hpiece
      · obtain rfl := List.mem_singleton.mp hpiece
        cases hdirective
    · rw [written_text, output, List.flatMap_nil, List.append_nil]
  | cons token tokens ih =>
    obtain ⟨hne, hothers⟩ := not_or.mp (List.mem_cons.not.mp hpercent)
    cases token with
    | percent => exact absurd rfl hne
    -- literal text is collected in `nstr`
    | literal text =>
      have hspell : spell (.literal text :: tokens) = text ++ spell tokens := List.flatMap_cons ..
      rw [hspell] at hlen ⊢
      obtain ⟨left, hleft, heq⟩ := split_literal h.1 hlen nstr
      obtain ⟨herror, hkeys, hwritten⟩ := ih h.2 hothers hleft (nstr ++ text)
      rw [heq]
      refine ⟨herror, hkeys, ?_⟩
      rw [hwritten, List.map_append, List.append_assoc]
      rfl
    -- a directive flushes what was collected, and is followed by an empty `nstr`
    | directive k f =>
      obtain ⟨more, hspell, hk37, hk, htokens, hread⟩ := readDirective_token h
      have hle : (spell tokens).length ≤ (k :: more).length := length_readDirective hread
      rw [hspell] at hlen ⊢
      obtain ⟨turns, rfl⟩ :=
        Nat.exists_eq_succ_of_ne_zero (Nat.ne_zero_of_lt (Nat.lt_of_succ_le hlen))
      obtain ⟨herror, hkeys, hwritten⟩ :=
        ih htokens hothers (hle.trans (Nat.le_of_succ_le_succ hlen)) []
      rw [split_directive (by simpa using hk37) hread]
      refine ⟨herror, fun piece hpiece hdirective => ?_, ?_⟩
      · rcases List.mem_append.mp hpiece with hpiece | hpiece
        · unfold text at hpiece
          split_ifs at hpiece
          · cases hpiece
          · obtain rfl := List.mem_singleton.mp hpiece
            cases hdirective
        · rcases List.mem_cons.mp hpiece with rfl | hpiece
          · exact hk
          · exact hkeys piece hpiece hdirective
      · rw [written, List.flatMap_append, ← written, written_text, List.flatMap_cons, ← written,
          hwritten]
        rfl

/-- Without an error the text so far is written first. -/
theorem prefix_written {pattern : List UInt8} (h : (split turns pattern nstr).2 = false) :
    nstr.map .inl <+: written (split turns pattern nstr).1 := by
  induction turns generalizing pattern nstr with
  | zero =>
    exact (written_text nstr).symm ▸ List.prefix_rfl
  | succ turns ih =>
    cases pattern with
    | nil =>
      change nstr.map .inl <+: written (text nstr)
      exact (written_text nstr).symm ▸ List.prefix_rfl
    | cons c rest =>
      have hlonger (c : UInt8) :
          nstr.map (Sum.inl : UInt8 → Output) <+: (nstr ++ [c]).map .inl := by
        rw [List.map_append]
        exact List.prefix_append ..
      rw [split] at h ⊢
      by_cases hc : c ≠ 37
      · rw [if_pos hc] at h ⊢
        exact (hlonger c).trans (ih h)
      · rw [if_neg hc] at h ⊢
        by_cases hhead : rest.head? = some 37
        · rw [if_pos hhead] at h ⊢
          exact (hlonger 37).trans (ih h)
        · rw [if_neg hhead] at h ⊢
          cases hread : readDirective rest with
          | none =>
            rw [hread] at h
            cases h
          | some r =>
            simp only
            rw [written, List.flatMap_append, ← written, written_text]
            exact List.prefix_append ..

/-- What a directive writes behind the text so far. -/
theorem exists_written_directive {r : List UInt8 × List UInt8 × List UInt8}
    (hhead : rest.head? ≠ some 37) (h : readDirective rest = some r) (turns : ℕ)
    (nstr : List UInt8) :
    ∃ more, written (split (turns + 1) (37 :: rest) nstr).1 =
      nstr.map .inl ++ .inr (r.1, r.2.1) :: more := by
  rw [split_directive hhead h]
  refine ⟨written (split turns r.2.2 []).1, ?_⟩
  rw [written, List.flatMap_append, ← written, written_text, List.flatMap_cons]
  rfl

/-- **The second `%` of an escape** starts a directive, behind a text that has a `%` of the escape
and those that are in excess: what comes out is not what the tokens behind it write. -/
theorem written_ne (h : WellFormed tokens) (hlen : (37 :: spell tokens).length ≤ turns) (e : ℕ)
    (herror : (split turns (37 :: spell tokens) (nstr ++ List.replicate e 37)).2 = false) :
    written (split turns (37 :: spell tokens) (nstr ++ List.replicate e 37)).1 ≠
      nstr.map .inl ++ output tokens := by
  induction tokens generalizing turns nstr e with
  | nil =>
    obtain ⟨turns, rfl⟩ :=
      Nat.exists_eq_succ_of_ne_zero (Nat.ne_zero_of_lt (Nat.lt_of_succ_le hlen))
    obtain ⟨more, hmore⟩ := exists_written_directive (show ([] : List UInt8).head? ≠ some 37 by
      rintro ⟨⟩) rfl turns (nstr ++ List.replicate e 37)
    intro heq
    have hlength := congrArg List.length (hmore.symm.trans heq)
    simp only [List.length_append, List.length_map, List.length_cons, output, List.flatMap_nil,
      List.length_nil] at hlength
    omega
  | cons token tokens ih =>
    cases token with
    | percent =>
      -- two more turns, and one more `%` in excess
      have hspell : spell (.percent :: tokens) = 37 :: 37 :: spell tokens := List.flatMap_cons ..
      rw [hspell] at hlen herror ⊢
      obtain ⟨turns, rfl⟩ : ∃ left, turns = left + 1 + 1 := ⟨turns - 2, by
        simp only [List.length_cons] at hlen
        omega⟩
      have hexcess : nstr ++ List.replicate e 37 ++ [37] ++ [37] =
          nstr ++ [37] ++ List.replicate (e + 1) 37 := by
        rw [List.append_assoc nstr, ← List.replicate_succ', List.replicate_succ,
          List.append_assoc nstr, List.append_assoc nstr, List.cons_append, ← List.replicate_succ',
          List.replicate_succ]
        rfl
      rw [split_percent, split_percent, hexcess] at herror ⊢
      have hne := ih h (Nat.le_of_succ_le_succ (Nat.le_of_succ_le_succ hlen)) (e + 1) herror
      rw [List.map_append, List.append_assoc (nstr.map _)] at hne
      exact hne
    | literal text =>
      cases text with
      | nil => exact ih h.2 hlen e herror
      | cons c text =>
        have hc : c ≠ 37 := fun hc => h.1 (hc ▸ List.mem_cons_self ..)
        have hspell : spell (.literal (c :: text) :: tokens) = c :: (text ++ spell tokens) :=
          List.flatMap_cons ..
        rw [hspell] at hlen herror ⊢
        obtain ⟨turns, rfl⟩ :=
          Nat.exists_eq_succ_of_ne_zero (Nat.ne_zero_of_lt (Nat.lt_of_succ_le hlen))
        have hhead : (c :: (text ++ spell tokens)).head? ≠ some 37 := by simpa using hc
        cases hread : readDirective (c :: (text ++ spell tokens)) with
        | none =>
          rw [split, if_neg (not_not_intro rfl), if_neg hhead, hread] at herror
          cases herror
        | some r =>
          obtain ⟨more, hmore⟩ := exists_written_directive hhead hread turns
            (nstr ++ List.replicate e 37)
          rw [hmore, List.map_append, List.append_assoc]
          intro heq
          have hcut := List.append_cancel_left heq
          cases e with
          | zero => cases (List.cons.inj hcut).1
          | succ e => exact hc (Sum.inl.inj (List.cons.inj hcut).1).symm
    | directive k f =>
      obtain ⟨more, hspell, -, -, -, -⟩ := readDirective_token h
      rw [hspell] at hlen herror ⊢
      obtain ⟨turns, rfl⟩ :=
        Nat.exists_eq_succ_of_ne_zero (Nat.ne_zero_of_lt (Nat.lt_of_succ_le hlen))
      rw [split_percent, List.append_assoc, ← List.replicate_succ'] at herror ⊢
      obtain ⟨later, hlater⟩ := prefix_written herror
      rw [← hlater, List.map_append, List.append_assoc]
      intro heq
      have hcut := List.append_cancel_left heq
      rw [List.replicate_succ] at hcut
      cases (List.cons.inj hcut).1

/-- **An escape** is read wrongly, wherever it stands. -/
theorem written_ne_of_percent (h : WellFormed tokens) (hpercent : Token.percent ∈ tokens)
    (hlen : (spell tokens).length ≤ turns) (nstr : List UInt8)
    (herror : (split turns (spell tokens) nstr).2 = false) :
    written (split turns (spell tokens) nstr).1 ≠ nstr.map .inl ++ output tokens := by
  induction tokens generalizing turns nstr with
  | nil => cases hpercent
  | cons token tokens ih =>
    cases token with
    | percent =>
      have hspell : spell (.percent :: tokens) = 37 :: 37 :: spell tokens := List.flatMap_cons ..
      rw [hspell] at hlen herror ⊢
      obtain ⟨turns, rfl⟩ :=
        Nat.exists_eq_succ_of_ne_zero (Nat.ne_zero_of_lt (Nat.lt_of_succ_le hlen))
      rw [split_percent, ← List.append_nil (nstr ++ [37])] at herror ⊢
      have hne := written_ne (show WellFormed tokens from h) (Nat.le_of_succ_le_succ hlen) 0 herror
      rw [List.map_append, List.append_assoc (nstr.map _)] at hne
      exact hne
    | literal text =>
      have hrest : Token.percent ∈ tokens := by simpa using hpercent
      have hspell : spell (.literal text :: tokens) = text ++ spell tokens := List.flatMap_cons ..
      rw [hspell] at hlen herror ⊢
      obtain ⟨left, hleft, heq⟩ := split_literal h.1 hlen nstr
      rw [heq] at herror ⊢
      have hne := ih h.2 hrest hleft (nstr ++ text) herror
      rw [List.map_append, List.append_assoc] at hne
      exact hne
    | directive k f =>
      have hrest : Token.percent ∈ tokens := by simpa using hpercent
      obtain ⟨more, hspell, hk37, -, htokens, hread⟩ := readDirective_token h
      have hle : (spell tokens).length ≤ (k :: more).length := length_readDirective hread
      rw [hspell] at hlen herror ⊢
      obtain ⟨turns, rfl⟩ :=
        Nat.exists_eq_succ_of_ne_zero (Nat.ne_zero_of_lt (Nat.lt_of_succ_le hlen))
      rw [split_directive (by simpa using hk37) hread] at herror ⊢
      have hne := ih htokens hrest (hle.trans (Nat.le_of_succ_le_succ hlen)) [] herror
      rw [written, List.flatMap_append, ← written, written_text, List.flatMap_cons, ← written]
      intro heq
      exact hne (List.cons.inj (List.append_cancel_left heq)).2

end Split

/-! ## Patterns -/

/-- What the items of a pattern write. -/
def itemsOutput (pattern : List UInt8) : List Output := (items pattern).flatMap FormatItem.output

/-- Without an error every key is registered. -/
theorem itemsOutput_eq {pattern : List UInt8} (h : (init pattern).2 = false) :
    itemsOutput pattern = written (split pattern.length pattern []).1 := by
  have hkeys := (Bool.or_eq_false_iff.mp h).2
  rw [itemsOutput, items, List.flatMap_map, written, List.flatMap_def, List.flatMap_def]
  refine congrArg List.flatten (List.map_congr_left fun piece hpiece => ?_)
  exact Piece.output_toItem (Bool.eq_false_iff.mpr (List.any_eq_false.mp hkeys piece hpiece))

/-- **Patterns parse to what they spell** exactly without escapes; the loop ends for every
pattern. -/
theorem pattern_tokens_iff {tokens : List Token} (h : WellFormed tokens) :
    (∀ {turns : ℕ} {pattern : List UInt8}, pattern.length ≤ turns → ∀ nstr,
      split turns pattern nstr = split pattern.length pattern nstr) ∧
    ((init (spell tokens)).2 = false ∧ itemsOutput (spell tokens) = output tokens ↔
      Token.percent ∉ tokens) := by
  refine ⟨split_turns, ?_, fun hpercent => ?_⟩
  · rintro ⟨herror, houtput⟩ hpercent
    rw [itemsOutput_eq herror] at houtput
    exact written_ne_of_percent h hpercent (Nat.le_refl _) []
      (Bool.or_eq_false_iff.mp herror).1 houtput
  · obtain ⟨herror, hkeys, hwritten⟩ :=
      split_spell h hpercent (Nat.le_refl _) []
    have hinit : (init (spell tokens)).2 = false := by
      refine Bool.or_eq_false_iff.mpr ⟨herror, List.any_eq_false.mpr fun piece hpiece => ?_⟩
      intro hbad
      obtain ⟨hdirective, hkey⟩ := Bool.and_eq_true_iff.mp hbad
      exact of_decide_eq_true hkey (hkeys piece hpiece hdirective)
    refine ⟨hinit, ?_⟩
    rw [itemsOutput_eq hinit, hwritten]
    rfl

/-- The pattern `%d{%H}-%m%n`. -/
def dateTokens : List Token :=
  [.directive 100 (some [37, 72]), .literal [45], .directive 109 none, .directive 110 none]

theorem pattern_tokens_iff_date :
    spell dateTokens = bytes "%d\x7b%H\x7d-%m%n" ∧
      ((init (spell dateTokens)).2 = false ∧ itemsOutput (spell dateTokens) = output dateTokens ↔
        Token.percent ∉ dateTokens) :=
  ⟨by decide, (pattern_tokens_iff
    (show WellFormed dateTokens from ⟨by decide, by decide, by decide, by decide,
      by decide +kernel, by decide, by decide +kernel, trivial⟩)).2⟩

/-- The escape in `100%%` is read as a directive without a name, and that in `%%m` as the message
behind a `%`. -/
theorem escape_misread :
    (init (spell [.literal [49, 48, 48], .percent])).2 = true ∧
      (init (spell [.percent, .literal [109]])).2 = false ∧
      items (spell [.percent, .literal [109]]) = [.string [37], .item [109] []] ∧
      output [.percent, .literal [109]] = [.inl 37, .inl 109] := by
  decide

end LogFormatter

end Log

end Sylar
