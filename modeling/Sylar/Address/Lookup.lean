import Sylar.Foundation.CString

/-!
# Splitting a host

`Lookup` splits its argument into the two texts for `getaddrinfo`. It looks for an address in
brackets, then for a name in front of a colon, and takes the whole argument if the node is still
empty. The service is a pointer into the argument, which the search for a second colon does not
take back: behind it `service` points at the first one. Brackets with nothing between them are
taken for a name.

## Main definitions

* `split`: the node, and the offset of the service
* `Bracketed`: the form `[h]t`
* `Right`, `Splittable`: what the two texts are to be, and of which arguments they are

## Main results

* `split_iff`: the texts are right exactly for the arguments that are splittable
-/

namespace Sylar

open Foundation

namespace Address

/-! ## The code -/

/-- The search for `[address]` and `[address]:service`. -/
def splitBracket (host : List UInt8) : Option (List UInt8 × Option ℕ) :=
  if host ≠ [] ∧ host.head? = some 91 then
    (memchr host 93 1 (host.length - 1)).bind fun endipv6 =>
      match endipv6 with
      -- no closing bracket: the host is read as one without brackets
      | none => some ([], none)
      | some endipv6 =>
        -- `*(endipv6 + 1)`, which is the null byte behind a bracket at the end
        (charAt host (endipv6 + 1)).map fun c =>
          ((host.drop 1).take (endipv6 - 1), if c = 58 then some (endipv6 + 2) else none)
  else some ([], none)

/-- The search for `node:service`. -/
def splitColon (host : List UInt8) : Option (List UInt8 × Option ℕ) :=
  (memchr host 58 0 host.length).bind fun service =>
    match service with
    | none => some ([], none)
    | some service =>
      (memchr host 58 (service + 1) (host.length - service - 1)).map fun second =>
        match second with
        | none => (host.take service, some (service + 1))
        -- `service` keeps what the first search has found
        | some _ => ([], some service)

/-- `node` and `service` in `Lookup`, in front of the call of `getaddrinfo`. -/
def split (host : List UInt8) : Option (List UInt8 × Option ℕ) :=
  (splitBracket host).bind fun r =>
    (if r.1 = [] then splitColon host else some r).map fun r =>
      (if r.1 = [] then host else r.1, r.2)

/-- The arguments of `getaddrinfo`, which are strings without a length. -/
def arguments (host node : List UInt8) (service : Option ℕ) : List UInt8 × Option (List UInt8) :=
  (cstr node, service.map fun i => cstr (host.drop i))

/-! ## Forms -/

variable {host h h' t t' n s node : List UInt8} {service : Option ℕ}

/-- The argument is `[h]t`. -/
structure Bracketed (host h t : List UInt8) : Prop where
  eq : host = 91 :: (h ++ 93 :: t)
  not_mem : 93 ∉ h

/-- The argument is `[h]` or `[h]:s`. -/
def IsAddress (host : List UInt8) : Prop :=
  ∃ h t, Bracketed host h t ∧ (t = [] ∨ t.head? = some 58)

/-- **What is to be given to `getaddrinfo`**: the parts of `[h]:s` and `[h]`, those of `n:s` with
one colon, and otherwise the whole argument without a service. -/
structure Right (host node : List UInt8) (service : Option ℕ) : Prop where
  address_service : ∀ h s, Bracketed host h (58 :: s) →
    arguments host node service = (cstr h, some (cstr s))
  address : ∀ h, Bracketed host h [] → arguments host node service = (cstr h, none)
  name_service : ¬ IsAddress host → ∀ n s, host = n ++ 58 :: s → 58 ∉ n → 58 ∉ s → n ≠ [] →
    arguments host node service = (cstr n, some (cstr s))
  bare : ¬ IsAddress host → host.count 58 ≠ 1 → arguments host node service = (cstr host, none)
  /-- The service is not left at a colon inside the node. -/
  inside : node = host → ∀ i, service = some i → host[i]? ≠ some 58

/-- An address in brackets, which is not empty, with nothing or a colon behind it; or an argument
with at most one colon, unless it has an address in brackets that is not empty, or begins with
empty brackets that have nothing or a colon behind them. -/
def Splittable (host : List UInt8) : Prop :=
  (∃ h t, Bracketed host h t ∧ h ≠ [] ∧ (t = [] ∨ t.head? = some 58)) ∨
    (∀ h t, Bracketed host h t → h = [] ∧ t ≠ [] ∧ t.head? ≠ some 58) ∧ host.count 58 ≤ 1

theorem Bracketed.unique (hb : Bracketed host h t) (hb' : Bracketed host h' t') :
    h = h' ∧ t = t' := by
  obtain ⟨rfl, hh⟩ := hb
  obtain ⟨heq, hh'⟩ := hb'
  exact eq_of_cons_append_cons hh hh' (List.cons.inj heq).2

/-! ## The searches -/

theorem splitBracket_of_bracketed (hb : Bracketed host h t) :
    splitBracket host = some (h, if t.head? = some 58 then some (h.length + 3) else none) := by
  obtain ⟨rfl, hh⟩ := hb
  have hfind := memchr_of_mem hh [91] t
  have hread := charAt_append (91 :: (h ++ [93])) t
  have hlen : (91 :: (h ++ [93])).length = [91].length + h.length + 1 := by
    simp only [List.length_cons, List.length_append, List.length_nil]
    omega
  rw [List.cons_append, List.append_assoc, List.singleton_append, hlen] at hread
  rw [List.singleton_append] at hfind
  unfold splitBracket
  rw [if_pos ⟨List.cons_ne_nil _ _, rfl⟩, List.length_cons, Nat.add_sub_cancel]
  rw [List.length_singleton] at hfind hread
  rw [hfind, Option.bind_some]
  simp only
  rw [hread, Option.map_some, List.drop_one, List.tail_cons, Nat.add_sub_cancel_left,
    List.take_left]
  cases t with
  | nil => rfl
  | cons c t =>
    simp only [List.head?_cons, Option.getD_some, Option.some.injEq]
    congr 2
    rw [Nat.add_comm 1, Nat.add_assoc]

theorem splitBracket_of_not (hb : ¬ ∃ h t, Bracketed host h t) :
    splitBracket host = some ([], none) := by
  unfold splitBracket
  split_ifs with hhead
  · obtain ⟨r, rfl⟩ : ∃ r, host = 91 :: r := by
      cases host with
      | nil => exact absurd rfl hhead.1
      | cons c r => exact ⟨r, by rw [Option.some.inj hhead.2]⟩
    -- there is no second bracket
    have hnot : 93 ∉ r := by
      intro hmem
      obtain ⟨h, t, rfl, hh⟩ := List.eq_append_cons_of_mem hmem
      exact hb ⟨h, t, rfl, hh⟩
    have hfind := memchr_of_not_mem hnot [91]
    rw [List.singleton_append, List.length_singleton] at hfind
    rw [List.length_cons, Nat.add_sub_cancel, hfind]
    rfl
  · rfl

theorem splitColon_of_not_mem (h : 58 ∉ host) : splitColon host = some ([], none) := by
  have hfind := memchr_of_not_mem h []
  rw [splitColon, show memchr host 58 0 host.length = some none from hfind]
  rfl

theorem memchr_colon (hn : 58 ∉ n) :
    memchr (n ++ 58 :: s) 58 0 (n ++ 58 :: s).length = some (some n.length) := by
  have hfind := memchr_of_mem hn [] s
  rw [List.length_nil, Nat.zero_add] at hfind
  exact hfind

/-- The second search starts behind the first colon. -/
theorem splitColon_eq (hn : 58 ∉ n) : splitColon (n ++ 58 :: s) =
    (memchr ((n ++ [58]) ++ s) 58 (n ++ [58]).length s.length).map fun second =>
      match second with
      | none => (n, some (n.length + 1))
      | some _ => ([], some n.length) := by
  have hlen : (n ++ 58 :: s).length - n.length - 1 = s.length := by
    rw [List.length_append, List.length_cons]
    omega
  rw [splitColon, memchr_colon hn, Option.bind_some]
  simp only
  rw [hlen, List.take_left, List.append_assoc, List.singleton_append, List.length_append,
    List.length_singleton]

theorem splitColon_of_one (hn : 58 ∉ n) (hs : 58 ∉ s) :
    splitColon (n ++ 58 :: s) = some (n, some (n.length + 1)) := by
  rw [splitColon_eq hn, memchr_of_not_mem hs]
  rfl

theorem splitColon_of_more (hn : 58 ∉ n) (hs : 58 ∈ s) :
    splitColon (n ++ 58 :: s) = some ([], some n.length) := by
  obtain ⟨between, rest, rfl, hbetween⟩ := List.eq_append_cons_of_mem hs
  rw [splitColon_eq hn, memchr_of_mem hbetween]
  rfl

/-! ## The two texts -/

theorem split_of_bracketed (hb : Bracketed host h t) (hne : h ≠ []) :
    split host = some (h, if t.head? = some 58 then some (h.length + 3) else none) := by
  rw [split, splitBracket_of_bracketed hb, Option.bind_some, if_neg hne, Option.map_some,
    if_neg hne]

theorem split_of_not (hb : ∀ h t, Bracketed host h t → h = []) :
    split host = (splitColon host).map fun r => (if r.1 = [] then host else r.1, r.2) := by
  by_cases hexists : ∃ h t, Bracketed host h t
  · obtain ⟨h, t, hbracketed⟩ := hexists
    rw [split, splitBracket_of_bracketed hbracketed, Option.bind_some,
      if_pos (hb h t hbracketed)]
  · rw [split, splitBracket_of_not hexists, Option.bind_some, if_pos rfl]

/-! ## Right and wrong -/

theorem Bracketed.length_lt (hb : Bracketed host h t) : h.length < host.length := by
  rw [hb.eq, List.length_cons, List.length_append, List.length_cons]
  omega

/-- With an address in brackets the node is what is between them. -/
theorem right_bracketed_iff (hb : Bracketed host h t) :
    Right host h (if t.head? = some 58 then some (h.length + 3) else none) ↔
      t = [] ∨ t.head? = some 58 := by
  constructor
  · intro hright
    by_contra hother
    have hform : ¬ IsAddress host := by
      rintro ⟨h', t', hb', ht'⟩
      obtain ⟨rfl, rfl⟩ := hb.unique hb'
      exact hother ht'
    have hcolon : t.head? ≠ some 58 := fun hcolon => hother (.inr hcolon)
    -- the whole argument, or its part in front of the colon, is longer than the node
    have hlonger : ∀ r, cstr h ≠ cstr (91 :: (h ++ r)) := by
      intro r heq
      rw [cstr_cons_ne (by decide)] at heq
      have hle : (cstr h).length ≤ (cstr (h ++ r)).length := length_cstr_le
      have hlen := congrArg List.length heq
      rw [List.length_cons] at hlen
      omega
    by_cases hcount : host.count 58 = 1
    · obtain ⟨n, r, hn, hnot⟩ := List.eq_append_cons_of_mem
        (List.count_pos_iff.mp (Nat.lt_of_lt_of_eq Nat.one_pos hcount.symm))
      have hr : 58 ∉ r := by
        rw [hn, List.count_append, List.count_cons_self, List.count_eq_zero.mpr hnot] at hcount
        exact List.count_eq_zero.mp (by omega)
      have hne : n ≠ [] := by
        rintro rfl
        have heq := List.cons.inj (hb.eq.symm.trans hn)
        exact absurd heq.1 (by decide)
      have hargs := (Prod.mk.inj (hright.name_service hform n r hn hnot hr hne)).2
      rw [if_neg hcolon] at hargs
      cases hargs
    · have hargs := (Prod.mk.inj (hright.bare hform hcount)).1
      rw [hb.eq] at hargs
      exact hlonger _ hargs
  · intro hform
    have hinside : h ≠ host := fun heq => Nat.lt_irrefl _ (heq ▸ hb.length_lt)
    have haddress : IsAddress host := ⟨h, t, hb, hform⟩
    constructor
    · intro h' s hb'
      obtain ⟨rfl, rfl⟩ := hb.unique hb'
      have hdrop : host.drop (h.length + 3) = s := by
        have hfront : host = 91 :: (h ++ [93, 58]) ++ s := by rw [hb.eq]; simp
        rw [hfront]
        exact List.drop_left' (by simp)
      rw [List.head?_cons, if_pos rfl, arguments, Option.map_some, hdrop]
    · intro h' hb'
      obtain ⟨rfl, rfl⟩ := hb.unique hb'
      rfl
    · exact fun hnot => absurd haddress hnot
    · exact fun hnot => absurd haddress hnot
    · exact fun heq => absurd heq hinside

/-- An argument that is not in the form of an address, with its colons. -/
theorem right_of_not_mem (hplain : ¬ IsAddress host) (hcolon : 58 ∉ host) :
    Right host host none := by
  have hform {h t : List UInt8} (hb : Bracketed host h t) (ht : t = [] ∨ t.head? = some 58) :
      False :=
    hplain ⟨h, t, hb, ht⟩
  constructor
  · exact fun h s hb => (hform hb (.inr rfl)).elim
  · exact fun h hb => (hform hb (.inl rfl)).elim
  · intro _ n s heq
    exact absurd (by simp [heq]) hcolon
  · exact fun _ _ => rfl
  · intro _ i hi
    cases hi

theorem right_of_one (hplain : ¬ IsAddress (n ++ 58 :: s)) (hn : 58 ∉ n) (hs : 58 ∉ s) :
    Right (n ++ 58 :: s) (if n = [] then n ++ 58 :: s else n) (some (n.length + 1)) := by
  have hform {h t : List UInt8} (hb : Bracketed (n ++ 58 :: s) h t)
      (ht : t = [] ∨ t.head? = some 58) : False :=
    hplain ⟨h, t, hb, ht⟩
  have hcount : (n ++ 58 :: s).count 58 = 1 := by
    rw [List.count_append, List.count_cons_self, List.count_eq_zero.mpr hn,
      List.count_eq_zero.mpr hs]
  constructor
  · exact fun h s hb => (hform hb (.inr rfl)).elim
  · exact fun h hb => (hform hb (.inl rfl)).elim
  · intro _ n' s' heq hn' hs' hne
    obtain ⟨rfl, rfl⟩ := eq_of_cons_append_cons hn hn' heq
    have hdrop : (n ++ 58 :: s).drop (n.length + 1) = s := by
      rw [List.append_cons]
      exact List.drop_left' (by simp)
    rw [if_neg hne, arguments, Option.map_some, hdrop]
  · exact fun _ hnot => absurd hcount hnot
  · intro hnode i hi
    obtain rfl := Option.some.inj hi
    rw [List.getElem?_append_right (Nat.le_add_right ..), Nat.add_sub_cancel_left,
      List.getElem?_cons_succ]
    exact fun hget => hs (List.mem_of_getElem? hget)

/-- **With a second colon** the first one is the service. -/
theorem not_right_of_more (hplain : ¬ IsAddress (n ++ 58 :: s)) (hs : 58 ∈ s) :
    ¬ Right (n ++ 58 :: s) (n ++ 58 :: s) (some n.length) := by
  intro hright
  have hcount : (n ++ 58 :: s).count 58 ≠ 1 := by
    have hpos := List.count_pos_iff.mpr hs
    rw [List.count_append, List.count_cons_self]
    omega
  have hargs := (Prod.mk.inj (hright.bare hplain hcount)).2
  cases hargs

/-- Empty brackets are taken for a name, which is not empty. -/
theorem not_right_of_empty (hb : Bracketed host [] t) (ht : t = [] ∨ t.head? = some 58)
    (hnode : node.head? = some 91) : ¬ Right host node service := by
  intro hright
  obtain ⟨r, rfl⟩ : ∃ r, node = 91 :: r := by
    cases node with
    | nil => cases hnode
    | cons c r => exact ⟨r, by rw [Option.some.inj hnode]⟩
  have hne : cstr (91 :: r) ≠ [] := by
    rw [cstr_cons_ne (by decide)]
    exact List.cons_ne_nil _ _
  rcases ht with rfl | ht
  · exact hne (Prod.mk.inj (hright.address [] hb)).1
  · obtain ⟨s, rfl⟩ : ∃ s, t = 58 :: s := by
      cases t with
      | nil => cases ht
      | cons c s => exact ⟨s, by rw [Option.some.inj ht]⟩
    exact hne (Prod.mk.inj (hright.address_service [] s hb)).1

/-- **The two texts** are right exactly for the arguments that are splittable. For every argument
the function comes to a result: it reads nothing behind the null byte. -/
theorem split_iff (host : List UInt8) : ∃ node service, split host = some (node, service) ∧
    (Right host node service ↔ Splittable host) := by
  by_cases hb : ∃ h t, Bracketed host h t ∧ h ≠ []
  · obtain ⟨h, t, hb, hne⟩ := hb
    refine ⟨_, _, split_of_bracketed hb hne, (right_bracketed_iff hb).trans ?_⟩
    constructor
    · exact fun hform => .inl ⟨h, t, hb, hne, hform⟩
    · rintro (⟨h', t', hb', -, hform⟩ | ⟨hplain, -⟩)
      · obtain ⟨rfl, rfl⟩ := hb.unique hb'
        exact hform
      · exact absurd (hplain h t hb).1 hne
  · have hempty : ∀ h t, Bracketed host h t → h = [] := fun h t hb' => by
      by_contra hne
      exact hb ⟨h, t, hb', hne⟩
    have hsplit := split_of_not hempty
    have hsplittable : Splittable host ↔ ¬ IsAddress host ∧ host.count 58 ≤ 1 := by
      constructor
      · rintro (⟨h, t, hb', hne, -⟩ | ⟨hplain, hcount⟩)
        · exact absurd (hempty h t hb') hne
        · refine ⟨fun ⟨h, t, hb', ht⟩ => ?_, hcount⟩
          obtain ⟨-, hnil, hhead⟩ := hplain h t hb'
          exact ht.elim hnil hhead
      · rintro ⟨hplain, hcount⟩
        refine .inr ⟨fun h t hb' => ⟨hempty h t hb', fun hnil => ?_, fun hhead => ?_⟩, hcount⟩
        · exact hplain ⟨h, t, hb', .inl hnil⟩
        · exact hplain ⟨h, t, hb', .inr hhead⟩
    rw [hsplittable]
    -- an address has empty brackets here, and stays as it is
    have hwrong {node : List UInt8} {service : Option ℕ} (hnode : node.head? = host.head?)
        (haddress : IsAddress host) : ¬ Right host node service := by
      obtain ⟨h, t, hb', ht⟩ := haddress
      obtain rfl := hempty h t hb'
      exact not_right_of_empty hb' ht (by rw [hnode, hb'.eq]; rfl)
    rcases not_mem_or_eq_append 58 host with hcolon | ⟨n, s, hhost, hn⟩
    · rw [splitColon_of_not_mem hcolon] at hsplit
      refine ⟨_, _, hsplit, fun hright => ⟨fun haddress => hwrong rfl haddress hright, ?_⟩, ?_⟩
      · rw [List.count_eq_zero.mpr hcolon]
        exact Nat.zero_le 1
      · exact fun hplain => right_of_not_mem hplain.1 hcolon
    -- more than one colon: the service is what stands behind the first
    · by_cases hs : 58 ∈ s
      · rw [hhost, splitColon_of_more hn hs, ← hhost] at hsplit
        refine ⟨_, _, hsplit, iff_of_false (fun hright => ?_) fun hplain => ?_⟩
        · by_cases haddress : IsAddress host
          · exact hwrong rfl haddress hright
          · subst hhost
            exact not_right_of_more haddress hs hright
        · have hcount := hplain.2
          have hpos := List.count_pos_iff.mpr hs
          rw [hhost, List.count_append, List.count_cons_self] at hcount
          omega
      · rw [hhost, splitColon_of_one hn hs, ← hhost] at hsplit
        have hnode : (if n = [] then host else n).head? = host.head? := by
          split_ifs with hnil
          · rfl
          · rw [hhost, List.head?_append_of_ne_nil _ hnil]
        refine ⟨_, _, hsplit, fun hright => ⟨fun haddress => hwrong hnode haddress hright, ?_⟩, ?_⟩
        · have hcount : n.count 58 = 0 ∧ s.count 58 = 0 :=
            ⟨List.count_eq_zero.mpr hn, List.count_eq_zero.mpr hs⟩
          rw [hhost, List.count_append, List.count_cons_self]
          omega
        · rintro ⟨hplain, -⟩
          subst hhost
          exact right_of_one hplain hn hs

/-- The service for `fe80::1` begins at its first colon. -/
theorem service_inside_node :
    split (bytes "fe80::1") = some (bytes "fe80::1", some 4) ∧
      arguments (bytes "fe80::1") (bytes "fe80::1") (some 4) =
        (bytes "fe80::1", some (bytes "::1")) ∧
      ¬ Right (bytes "fe80::1") (bytes "fe80::1") (some 4) :=
  ⟨by decide, by decide, fun h => h.inside rfl 4 rfl rfl⟩

end Address

end Sylar
