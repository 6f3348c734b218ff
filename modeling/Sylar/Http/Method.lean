import Sylar.Http.Segments

/-!
# The two decoders of a method

`StringToHttpMethod` compares the names of the table with a whole string, `CharsToHttpMethod` with
what stands at a pointer, and only as far as each name goes. The parser has a pointer: at the blank
behind a token it hands the rest of the buffer to the second decoder, with the length of the token,
which the callback does not look at. So a token that goes on behind a name is taken for that name.

No name of the table goes on behind another one. The order in which the names are compared is
therefore no matter, and the two decoders differ on these tokens only.

## Main definitions

* `strcmp`, `stringToHttpMethod`: the decoder of a whole string
* `isMethodByte`: the alphabet of a method in the grammar

## Main results

* `exec_token`: what the machine does with a token in front of a blank
* `decoders_agree_iff`: the tokens on which the decoders agree
-/

namespace Sylar

open Foundation

namespace Http

variable {buffer t : List UInt8} {s : HttpRequestParser}

/-- `strcmp(s, t) == 0`; a string ends with a zero byte. -/
def strcmp : List UInt8 → List UInt8 → Bool
  | [], t => t.headD 0 = 0
  | a :: s, t => a = t.headD 0 && (a = 0 || strcmp s t.tail)

def stringToHttpMethod (m : List UInt8) : HttpMethod :=
  ((httpMethodMap.find? fun x => strcmp (bytes x.2) m).map (·.1)).getD .invalid_method

/-- `upper | digit`. -/
def isMethodByte (c : UInt8) : Bool := 65 ≤ c && c ≤ 90 || 48 ≤ c && c ≤ 57

theorem ne_zero_of_isMethodByte {c : UInt8} (h : isMethodByte c = true) : c ≠ 0 := by
  rintro rfl
  exact absurd h (by decide)

/-! ## The comparisons -/

theorem strcmp_iff {name : List UInt8} (hname : ∀ a ∈ name, a ≠ 0) (ht : ∀ c ∈ t, c ≠ 0) :
    strcmp name t = true ↔ name = t := by
  induction name generalizing t with
  | nil =>
    cases t with
    | nil => simp [strcmp]
    | cons c t => simpa [strcmp] using ht c (by simp)
  | cons a name ih =>
    have ha := hname a (by simp)
    cases t with
    | nil => simp [strcmp, ha]
    | cons c t =>
      have hrest := ih (fun d hd => hname d (List.mem_cons_of_mem _ hd))
        (fun d hd => ht d (List.mem_cons_of_mem _ hd))
      simp [strcmp, ha, hrest]

/-- A comparison that ends with the name sees whether the text begins with it. -/
theorem strncmp_iff {name : List UInt8} (hname : ∀ a ∈ name, a ≠ 0) (text : List UInt8) :
    strncmp name text name.length = true ↔ name <+: text := by
  induction name generalizing text with
  | nil => simp [strncmp]
  | cons a name ih =>
    have ha := hname a (by simp)
    have hrest := ih (fun d hd => hname d (List.mem_cons_of_mem _ hd)) text.tail
    cases text with
    | nil => simp [strncmp, ha]
    | cons c text =>
      simp only [List.tail_cons] at hrest
      simp [strncmp, ha, hrest, List.cons_prefix_cons]

/-! ## The names of the table -/

theorem ne_invalid_of_mem : ∀ x ∈ httpMethodMap, x.1 ≠ .invalid_method := by
  decide

theorem eq_of_isInitial : ∀ x ∈ httpMethodMap, ∀ y ∈ httpMethodMap,
    bytes x.2 <+: bytes y.2 → bytes x.2 = bytes y.2 := by
  decide +kernel

theorem bytes_ne_zero {x : HttpMethod × String} (hx : x ∈ httpMethodMap) :
    ∀ a ∈ bytes x.2, a ≠ 0 :=
  fun a ha => (httpMethodMap_names x hx a ha).1

/-- A search of the table finds a method, or there is no name that it looks for. -/
theorem find_names (p : HttpMethod × String → Bool) :
    ((httpMethodMap.find? p).map (·.1)).getD .invalid_method ≠ .invalid_method ↔
      ∃ x ∈ httpMethodMap, p x = true := by
  cases h : httpMethodMap.find? p with
  | none =>
    rw [List.find?_eq_none] at h
    simp only [Option.map_none, Option.getD_none, ne_eq, not_true_eq_false, false_iff]
    rintro ⟨x, hx, hp⟩
    exact h x hx hp
  | some x =>
    have hx := List.mem_of_find?_eq_some h
    simp only [Option.map_some, Option.getD_some]
    exact ⟨fun _ => ⟨x, hx, List.find?_some h⟩, fun _ => ne_invalid_of_mem x hx⟩

/-- The decoder of a pointer accepts what begins with a name. -/
theorem charsToHttpMethod_iff (text : List UInt8) :
    charsToHttpMethod text ≠ .invalid_method ↔ ∃ x ∈ httpMethodMap, bytes x.2 <+: text := by
  rw [charsToHttpMethod, find_names]
  apply exists_congr
  intro x
  exact and_congr_right fun hx => strncmp_iff (bytes_ne_zero hx) text

/-- The decoder of a string accepts the names. -/
theorem stringToHttpMethod_iff (ht : ∀ c ∈ t, c ≠ 0) :
    stringToHttpMethod t ≠ .invalid_method ↔ ∃ x ∈ httpMethodMap, bytes x.2 = t := by
  rw [stringToHttpMethod, find_names]
  apply exists_congr
  intro x
  exact and_congr_right fun hx => strcmp_iff (bytes_ne_zero hx) ht

/-- Where a text begins with no name but itself, the decoders find the same. -/
theorem charsToHttpMethod_eq (ht : ∀ c ∈ t, c ≠ 0)
    (h : ∀ x ∈ httpMethodMap, bytes x.2 <+: t → bytes x.2 = t) :
    charsToHttpMethod t = stringToHttpMethod t := by
  unfold charsToHttpMethod stringToHttpMethod
  rw [List.find?_congr]
  intro x hx
  rw [Bool.eq_iff_iff, strncmp_iff (bytes_ne_zero hx), strcmp_iff (bytes_ne_zero hx) ht]
  exact ⟨h x hx, fun heq => heq ▸ List.prefix_refl _⟩

/-! ## The token in the machine -/

/-- The state behind so many bytes of a method. -/
def methodState : ℕ → ℕ
  | 0 => 1
  | 1 => 2
  | n + 2 => 175 + n

/-- The row of a state in the method: a blank ends it, and letters and digits go on. -/
def methodRow (n : ℕ) : List Edge :=
  [.on 32 32 3 [.request_method], .on 48 57 (methodState (n + 1)), .on 65 90 (methodState (n + 1))]

deriving instance DecidableEq for Edge

theorem row_method : ∀ n : Fin 19, table.getD (methodState (n + 1)) [] = methodRow (n + 1) := by
  decide

theorem next_blank (r : Bool) {n : ℕ} (hn : n < 20) :
    next r (methodState (n + 1)) 32 = some (3, [.request_method]) := by
  by_cases hlast : n = 19
  · subst hlast
    cases r <;> decide
  · rw [next, row_method ⟨n, by omega⟩]
    rfl

theorem next_methodByte {c : UInt8} {n : ℕ} (r : Bool) (hn : n < 20) (hc : isMethodByte c = true) :
    next r (methodState n) c = some (methodState (n + 1), if n = 0 then [.mark] else []) := by
  have hbyte : 65 ≤ c.toNat ∧ c.toNat ≤ 90 ∨ 48 ≤ c.toNat ∧ c.toNat ≤ 57 := by
    simpa [isMethodByte, UInt8.le_iff_toNat_le] using hc
  cases n with
  | zero =>
    have hrow : table.getD 1 [] =
        [.on 48 57 2 [.mark], .on 60 60 194 [.mark], .on 64 64 198 [.mark],
          .on 65 90 2 [.mark]] := by
      decide
    rw [next, methodState, hrow]
    rcases hbyte with hletter | hdigit
    · have hhigh : ¬ c.toNat ≤ 57 ∧ ¬ c.toNat ≤ 60 ∧ ¬ c.toNat ≤ 64 := by omega
      simp [List.find?, Edge.on, hletter, hhigh, methodState]
    · simp [List.find?, Edge.on, hdigit, methodState]
  | succ n =>
    rw [next, row_method ⟨n, by omega⟩, methodRow]
    have hblank : ¬ c.toNat ≤ 32 := by omega
    rcases hbyte with hletter | hdigit
    · have hhigh : ¬ c.toNat ≤ 57 := by omega
      simp [List.find?, Edge.on, hletter, hblank, hhigh]
    · simp [List.find?, Edge.on, hdigit, hblank]

/-- One byte of the machine, where it goes on. -/
theorem exec_cons {cs cs' p : ℕ} {c : UInt8} {actions : List Action} {s' : HttpRequestParser}
    (rest : List UInt8) (hnext : next s.parser.uri_relaxed cs c = some (cs', actions))
    (hrun : actions.foldlM (act buffer p) s = some s') (hdone : .done ∉ actions) :
    exec buffer s cs p (c :: rest) = exec buffer s' cs' (p + 1) rest := by
  rw [exec, hnext]
  simp only [hrun, Option.bind_some, if_neg hdone]

/-- The bytes behind the first one, and the blank. -/
theorem exec_method {n : ℕ} (p : ℕ) (rest : List UInt8) (ht : ∀ c ∈ t, isMethodByte c = true)
    (hn : n ≠ 0) (hlen : n + t.length ≤ 20) :
    exec buffer s (methodState n) p (t ++ 32 :: rest) =
      exec buffer (onReqeustMethod s (buffer.drop s.parser.mark)) 3 (p + t.length + 1) rest := by
  induction t generalizing n p with
  | nil =>
    rw [List.length_nil] at hlen
    obtain ⟨k, rfl⟩ := Nat.exists_eq_succ_of_ne_zero hn
    exact exec_cons rest (next_blank _ (n := k) (by omega)) rfl (by decide)
  | cons c t ih =>
    rw [List.length_cons] at hlen
    have hnext := next_methodByte s.parser.uri_relaxed (show n < 20 by omega) (ht c (by simp))
    rw [if_neg hn] at hnext
    rw [List.cons_append, exec_cons _ hnext rfl (by simp),
      ih (p + 1) (fun d hd => ht d (List.mem_cons_of_mem _ hd)) (by omega) (by omega),
      List.length_cons, Nat.add_assoc p 1, Nat.add_comm 1]

/-- A token in front of a blank: the machine sets the mark in front of it and calls
`on_reqeust_method` at the blank. -/
theorem exec_token (rest : List UInt8) (hne : t ≠ []) (ht : ∀ c ∈ t, isMethodByte c = true)
    (hlen : t.length ≤ 20) (p : ℕ) :
    exec buffer s 1 p (t ++ 32 :: rest) =
      exec buffer (onReqeustMethod (s.update ({ · with mark := p })) (buffer.drop p)) 3
        (p + t.length + 1) rest := by
  obtain ⟨c, t, rfl⟩ := List.exists_cons_of_ne_nil hne
  rw [List.length_cons] at hlen
  have hnext : next s.parser.uri_relaxed 1 c = some (2, [.mark]) :=
    next_methodByte s.parser.uri_relaxed (Nat.zero_lt_succ 19) (ht c (by simp))
  rw [List.cons_append, exec_cons _ hnext rfl (by decide)]
  rw [show (2 : ℕ) = methodState 1 from rfl, exec_method (p + 1) rest
      (fun d hd => ht d (List.mem_cons_of_mem _ hd)) Nat.one_ne_zero (by omega),
    List.length_cons, Nat.add_assoc p 1, Nat.add_comm 1]
  rfl

/-! ## The decoders -/

/-- `on_reqeust_method` takes the token for a method exactly if it is a name of the table, for the
method that `StringToHttpMethod` finds, and reports the error 1000 otherwise. -/
def DecodersAgree (t : List UInt8) : Prop :=
  ∀ (s : HttpRequestParser) (rest : List UInt8), onReqeustMethod s (t ++ 32 :: rest) =
    if ∃ x ∈ httpMethodMap, bytes x.2 = t then
      { s with data := { s.data with method := stringToHttpMethod t } }
    else { s with error := 1000 }

/-- A name in front of a longer token is enough for the parser. -/
theorem not_agree {x : HttpMethod × String} (hx : x ∈ httpMethodMap) (hpre : bytes x.2 <+: t)
    (hne : bytes x.2 ≠ t) : ¬ DecodersAgree t := by
  intro h
  have hname : ¬ ∃ y ∈ httpMethodMap, bytes y.2 = t := by
    rintro ⟨y, hy, rfl⟩
    exact hne (eq_of_isInitial x hx y hy hpre)
  have haccepts : charsToHttpMethod (t ++ [32]) ≠ .invalid_method := by
    rw [charsToHttpMethod_blank, charsToHttpMethod_iff]
    exact ⟨x, hx, hpre⟩
  have hcall := h (.new ⟨0, 0, 0, 0, 0, 0, 0, 0, false, false, false⟩) []
  rw [if_neg hname] at hcall
  have herror := congrArg HttpRequestParser.error hcall
  simp only [onReqeustMethod, if_neg haccepts] at herror
  exact absurd herror (by decide)

/-- The decoders agree on a token exactly if no name of the table is a proper prefix of it. -/
theorem decoders_agree_iff (ht : ∀ c ∈ t, isMethodByte c = true) :
    DecodersAgree t ↔ ∀ x ∈ httpMethodMap, bytes x.2 <+: t → bytes x.2 = t := by
  have hzero : ∀ c ∈ t, c ≠ 0 := fun c hc => ne_zero_of_isMethodByte (ht c hc)
  constructor
  · intro h x hx hpre
    by_contra hne
    exact not_agree hx hpre hne h
  · intro h s rest
    simp only [onReqeustMethod, charsToHttpMethod_blank, charsToHttpMethod_eq hzero h]
    by_cases hname : ∃ x ∈ httpMethodMap, bytes x.2 = t
    · rw [if_pos hname, if_neg ((stringToHttpMethod_iff hzero).mpr hname)]
    · rw [if_neg hname, if_pos]
      by_contra hvalid
      exact hname ((stringToHttpMethod_iff hzero).mp hvalid)

/-- `MKCOL` is a name, and no other name is in front of it. -/
theorem decoders_agree_iff_mkcol :
    DecodersAgree (bytes "MKCOL") ↔
      ∀ x ∈ httpMethodMap, bytes x.2 <+: bytes "MKCOL" → bytes x.2 = bytes "MKCOL" :=
  decoders_agree_iff (by decide +kernel)

/-- `GETX` is taken for `GET`. -/
theorem longer_token_accepted :
    (∀ c ∈ bytes "GETX", isMethodByte c = true) ∧
      stringToHttpMethod (bytes "GETX") = .invalid_method ∧
      charsToHttpMethod (bytes "GETX /") = .get ∧ ¬ DecodersAgree (bytes "GETX") := by
  refine ⟨by decide +kernel, by decide +kernel, by decide, ?_⟩
  exact not_agree (x := (.get, "GET")) (by decide) (by decide) (by decide)

end Http

end Sylar
