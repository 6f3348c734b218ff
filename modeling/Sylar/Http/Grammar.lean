import Sylar.Http.Layout

/-!
# The grammar of a request

What the machine makes of the parts of a request, each read from the state in which the request
line or the headers expect it: the states it passes and the tokens it notes.

The grammar is that of `http11_parser.rl`. A path is whatever the machine takes for one: after
`//` it may begin with an authority.

## Main definitions

* `isToken`, `isContent`, `isPchar`, `Encoded`: the bytes of names, values and URIs
* `IsPath`, `IsQuery`: the parts of a URI
* `Line`: a header line

## Main results

* `reads_method`, `reads_uri`, `reads_version`, `reads_lines`: the parts of a request
-/

namespace Sylar

open Foundation

namespace Http

/-! ## The bytes of a request -/

def isAlpha (c : UInt8) : Bool := 65 ≤ c && c ≤ 90 || 97 ≤ c && c ≤ 122

def isDigit (c : UInt8) : Bool := 48 ≤ c && c ≤ 57

def isXdigit (c : UInt8) : Bool := isDigit c || 65 ≤ c && c ≤ 70 || 97 ≤ c && c ≤ 102

def subDelims (uri_relaxed : Bool) : List UInt8 :=
  bytes "!$&'()*+,;=" ++ if uri_relaxed then bytes "\x7b\x7d^" else []

def isUnreserved (c : UInt8) : Bool := isAlpha c || isDigit c || (bytes "-._~").contains c

/-- The bytes of a segment, without the escapes. -/
def isPchar (uri_relaxed : Bool) (c : UInt8) : Bool :=
  128 ≤ c || isUnreserved c || (subDelims uri_relaxed).contains c || (bytes ":@").contains c

def separators : List UInt8 := bytes "()<>@,;:\\\"/[]?=\x7b\x7d \t"

/-- The bytes of an HTTP token. -/
def isToken (c : UInt8) : Bool := 32 ≤ c && c < 127 && !separators.contains c

/-- The bytes that are no control characters. -/
def isContent (c : UInt8) : Bool := 32 ≤ c && c ≠ 127

/-- A text of certain bytes and of escapes `%XX`. -/
inductive Encoded (ok : UInt8 → Bool) : List UInt8 → Prop
  | nil : Encoded ok []
  | cons {c : UInt8} {rest : List UInt8} : ok c = true → Encoded ok rest → Encoded ok (c :: rest)
  | escape {a b : UInt8} {rest : List UInt8} : isXdigit a = true → isXdigit b = true →
      Encoded ok rest → Encoded ok (37 :: a :: b :: rest)

/-- A query, or a fragment. -/
def IsQuery (uri_relaxed : Bool) (text : List UInt8) : Prop :=
  Encoded (fun c => isPchar uri_relaxed c || c = 47 || c = 63) text

/-- A path from the root: what the machine takes for the path when a blank follows. -/
structure IsPath (uri_relaxed : Bool) (path : List UInt8) : Prop where
  root : path.head? = some 47
  bytes : ∀ c ∈ path, c ≠ 32 ∧ c ≠ 35 ∧ c ≠ 63
  taken : ((automaton uri_relaxed).scan 3 0 (path ++ [32])).verdict = .more 4

/-! ## Edges -/

/-- The machine has the same edge for all bytes of a class. -/
def Takes (uri_relaxed : Bool) (ok : UInt8 → Bool) (cs cs' : ℕ) (actions : List Action) : Prop :=
  ∀ c, ok c = true → next uri_relaxed cs c = some (cs', actions)

instance (uri_relaxed : Bool) (ok : UInt8 → Bool) (cs cs' : ℕ) (actions : List Action) :
    Decidable (Takes uri_relaxed ok cs cs' actions) :=
  decidable_of_iff (∀ n : Fin 256, ok (.ofNat n) = true →
    next uri_relaxed cs (.ofNat n) = some (cs', actions))
    ⟨fun h c => by simpa using h ⟨c.toNat, c.toNat_lt⟩, fun h _ => h _⟩

/-- The states for a text in which escapes may stand: `s` between its bytes, entered from `s₀`
with the given actions, `s₁` and `s₂` within an escape. -/
structure Loop (uri_relaxed : Bool) (ok : UInt8 → Bool) (s₀ s s₁ s₂ : ℕ)
    (actions : List Action) : Prop where
  enter : Takes uri_relaxed ok s₀ s actions
  stay : Takes uri_relaxed ok s s []
  escape : next uri_relaxed s₀ 37 = some (s₁, actions) ∧ next uri_relaxed s 37 = some (s₁, [])
  first : Takes uri_relaxed isXdigit s₁ s₂ []
  second : Takes uri_relaxed isXdigit s₂ s []
  states : s₀ < 348 ∧ s < 348 ∧ s₁ < 348 ∧ s₂ < 348
  actions : .done ∉ actions

theorem loop_query (r : Bool) :
    Loop r (fun c => isPchar r c || c = 47 || c = 63) 29 30 31 32 [.start_query] where
  enter := by revert r; decide +kernel
  stay := by revert r; decide +kernel
  escape := by revert r; decide +kernel
  first := by revert r; decide +kernel
  second := by revert r; decide +kernel
  states := by decide
  actions := by decide

theorem loop_fragment (r : Bool) :
    Loop r (fun c => isPchar r c || c = 47 || c = 63) 20 21 22 23 [.mark] where
  enter := by revert r; decide +kernel
  stay := by revert r; decide +kernel
  escape := by revert r; decide +kernel
  first := by revert r; decide +kernel
  second := by revert r; decide +kernel
  states := by decide
  actions := by decide

theorem takes_name (r : Bool) :
    Takes r isToken 13 14 [.start_field] ∧ Takes r isToken 14 14 [] := by
  revert r
  decide +kernel

theorem takes_value (r : Bool) :
    Takes r (fun c => isContent c && c != 32) 15 16 [.start_value] ∧
      Takes r isContent 16 16 [] := by
  revert r
  decide +kernel

/-! ## Texts -/

variable {uri_relaxed : Bool} {cs cs' cs'' p : ℕ} {l l' l'' : Layout} {c : UInt8}
  {text rest : List UInt8} {acts : List Action}

/-- A byte, and what comes behind it. -/
theorem reads_cons (hcs : cs < 348) (hnext : next uri_relaxed cs c = some (cs', acts))
    (hdone : .done ∉ acts)
    (h : (automaton uri_relaxed).Reads Layout.note cs' (p + 1)
      ((Automaton.events p c acts).foldl Layout.note l) rest cs'' l') :
    (automaton uri_relaxed).Reads Layout.note cs p l (c :: rest) cs'' l' := by
  refine .cons ((if_pos hcs).trans hnext) ?_ h
  rw [List.any_eq_false]
  rintro a ha
  simp only [automaton, decide_eq_true_eq]
  rintro rfl
  exact hdone ha

section Encoded

variable {ok : UInt8 → Bool} {s₀ s s₁ s₂ : ℕ}

/-- A text is read in the states of its loop. -/
theorem reads_loop (h : Loop uri_relaxed ok s₀ s s₁ s₂ acts) (htext : Encoded ok text) :
    (automaton uri_relaxed).Reads Layout.note s p l text s l := by
  obtain ⟨-, hs, hs₁, hs₂⟩ := h.states
  induction htext generalizing p with
  | nil => exact .nil
  | cons hc hrest ih => exact reads_cons hs (h.stay _ hc) (by simp) ih
  | escape ha hb hrest ih =>
    exact reads_cons hs h.escape.2 (by simp) (reads_cons hs₁ (h.first _ ha) (by simp)
      (reads_cons hs₂ (h.second _ hb) (by simp) ih))

/-- A text that is not empty, from the state before it. -/
theorem reads_encoded (h : Loop uri_relaxed ok s₀ s s₁ s₂ acts) (htext : Encoded ok text)
    (hne : text ≠ []) (hl : ∀ c, (Automaton.events p c acts).foldl Layout.note l = l') :
    (automaton uri_relaxed).Reads Layout.note s₀ p l text s l' := by
  obtain ⟨hs₀, hs, hs₁, hs₂⟩ := h.states
  cases htext with
  | nil => exact absurd rfl hne
  | cons hc hrest =>
    refine reads_cons hs₀ (h.enter _ hc) h.actions ?_
    rw [hl]
    exact reads_loop h hrest
  | escape ha hb hrest =>
    refine reads_cons hs₀ h.escape.1 h.actions ?_
    rw [hl]
    exact reads_cons hs₁ (h.first _ ha) (by simp)
      (reads_cons hs₂ (h.second _ hb) (by simp) (reads_loop h hrest))

end Encoded

/-! ## The request line -/

/-- The methods that the machine takes: their names are letters. -/
theorem scan_method : ∀ r : Bool, ∀ x ∈ httpMethodMap, x.1 ≠ .msearch →
    (automaton r).scan 1 0 (bytes x.2 ++ [32]) = ⟨.more 3, (bytes x.2).length + 1,
      [⟨0, (bytes x.2).headD 0, .mark⟩, ⟨(bytes x.2).length, 32, .request_method⟩]⟩ := by
  decide +kernel

theorem reads_method {x : HttpMethod × String} (hx : x ∈ httpMethodMap) (hne : x.1 ≠ .msearch) :
    (automaton uri_relaxed).Reads Layout.note 1 0 {} (bytes x.2 ++ [32]) 3
      (({} : Layout).add .method ⟨0, (bytes x.2).length⟩) := by
  refine .of_scan (scan_method uri_relaxed x hx hne) ?_
  simp only [Nat.zero_add, List.map_cons, List.map_nil, List.foldl_cons, List.foldl_nil]
  rfl

/-- What stands in front of a query or a fragment that is not empty. -/
def lead (c : UInt8) (text : List UInt8) : List UInt8 := if text = [] then [] else [c]

/-- The layout behind a query. -/
def Layout.noteQuery (p : ℕ) (query : List UInt8) (l : Layout) : Layout :=
  if query = [] then l
  else ({ l with query_start := p + 1 }).add .query ⟨p + 1, p + 1 + query.length⟩

/-- The layout behind a fragment. -/
def Layout.noteFragment (p : ℕ) (fragment : List UInt8) (l : Layout) : Layout :=
  if fragment = [] then l
  else ({ l with mark := p + 1 }).add .fragment ⟨p + 1, p + 1 + fragment.length⟩

/-- The fragment and the blank behind it, from a state in which the URI may end. -/
theorem reads_fragment {fragment : List UInt8} (hcs : cs < 348) (hdone : .done ∉ acts)
    (hblank : next uri_relaxed cs 32 = some (4, acts))
    (hhash : next uri_relaxed cs 35 = some (20, acts))
    (hl : ∀ c, (Automaton.events p c acts).foldl Layout.note l = l')
    (hfragment : IsQuery uri_relaxed fragment) :
    (automaton uri_relaxed).Reads Layout.note cs p l (lead 35 fragment ++ fragment ++ [32]) 4
      (l'.noteFragment p fragment) := by
  unfold lead Layout.noteFragment
  split_ifs with hnil
  · subst hnil
    refine reads_cons hcs hblank hdone ?_
    rw [hl]
    exact .nil
  · rw [List.append_assoc, List.singleton_append]
    refine reads_cons hcs hhash hdone ?_
    rw [hl]
    have hend : ∀ r, next r 21 32 = some (4, [.fragment]) := by decide
    exact (reads_encoded (loop_fragment uri_relaxed) hfragment hnil (fun _ => rfl)).append
      (reads_cons (by decide) (hend _) (by decide) .nil)

/-- The query, the fragment and the blank behind them, from the end of the path. -/
theorem reads_query {query fragment : List UInt8} (hcs : cs < 348)
    (hblank : next uri_relaxed cs 32 = some (4, [.request_path, .request_uri]))
    (hhash : next uri_relaxed cs 35 = some (20, [.request_path, .request_uri]))
    (hmark : next uri_relaxed cs 63 = some (29, [.request_path]))
    (hquery : IsQuery uri_relaxed query) (hfragment : IsQuery uri_relaxed fragment) :
    (automaton uri_relaxed).Reads Layout.note cs p l
      (lead 63 query ++ query ++ (lead 35 fragment ++ fragment ++ [32])) 4
      (((l.add .path ⟨l.mark, p⟩).noteQuery p query).noteFragment
        (p + (lead 63 query ++ query).length) fragment) := by
  by_cases hnil : query = []
  · subst hnil
    exact reads_fragment hcs (by decide) hblank hhash (fun _ => rfl) hfragment
  · have hend : ∀ r, next r 30 32 = some (4, [.query_string, .request_uri]) ∧
        next r 30 35 = some (20, [.query_string, .request_uri]) := by decide
    rw [Layout.noteQuery, if_neg hnil, lead, if_neg hnil, List.append_assoc, List.singleton_append]
    refine reads_cons hcs hmark (by decide) ?_
    have hread : (automaton uri_relaxed).Reads Layout.note 29 (p + 1) (l.add .path ⟨l.mark, p⟩)
        query 30 ({ l.add .path ⟨l.mark, p⟩ with query_start := p + 1 }) :=
      reads_encoded (loop_query uri_relaxed) hquery hnil fun _ => rfl
    refine hread.append ?_
    rw [List.singleton_append, List.length_cons, Nat.add_comm query.length, ← Nat.add_assoc]
    exact reads_fragment (by decide) (by decide) (hend _).1 (hend _).2 (fun _ => rfl) hfragment

/-! ## Paths -/

/-- The states within a path that begins with a slash. -/
def inPath (cs : ℕ) : Bool := 26 ≤ cs && cs ≤ 28 || 33 ≤ cs && cs ≤ 172

/-- An edge within a path has no actions; a blank, `#` and `?` lead out of it. -/
def Edge.inPath (e : Edge) : Bool :=
  (e.lo == 32 && e.hi == 32 || e.lo == 35 && e.hi == 35 || e.lo == 63 && e.hi == 63) ||
    e.actions == [] && Http.inPath e.target

theorem table_inPath :
    (table.zipIdx.all fun row => !inPath row.2 || row.1.all Edge.inPath) = true := by
  decide +kernel

/-- A path may end in the state: the machine knows what may follow. -/
structure EndsPath (uri_relaxed : Bool) (cs : ℕ) : Prop where
  state : cs < 348
  blank : next uri_relaxed cs 32 = some (4, [.request_path, .request_uri])
  hash : next uri_relaxed cs 35 = some (20, [.request_path, .request_uri])
  mark : next uri_relaxed cs 63 = some (29, [.request_path])

/-- Where a path may be followed by a blank, it may be followed by a query or a fragment. -/
theorem next_endsPath : ∀ r : Bool, ∀ cs : Fin 348, inPath cs = true →
    (next r cs 32).isSome → (next r cs 32, next r cs 35, next r cs 63) =
      (some (4, [.request_path, .request_uri]), some (20, [.request_path, .request_uri]),
        some (29, [.request_path])) := by
  decide +kernel

theorem lt_of_inPath (h : inPath cs = true) : cs < 348 := by
  simp only [inPath, Bool.or_eq_true, Bool.and_eq_true, decide_eq_true_eq] at h
  omega

/-- The bytes of a path keep the machine in it. -/
theorem next_inPath (hcs : inPath cs = true) (hc : c ≠ 32 ∧ c ≠ 35 ∧ c ≠ 63)
    (hnext : next uri_relaxed cs c = some (cs', acts)) : acts = [] ∧ inPath cs' = true := by
  unfold next at hnext
  obtain ⟨e, he, heq⟩ := Option.map_eq_some_iff.mp hnext
  obtain ⟨rfl, rfl⟩ := Prod.mk.inj heq
  have hmem := List.mem_of_find?_eq_some he
  have hbyte := List.find?_some he
  rw [List.getD_eq_getElem?_getD] at hmem
  have hin : e.inPath = true := by
    cases hrow : table[cs]? with
    | none =>
      rw [hrow] at hmem
      cases hmem
    | some row =>
      rw [hrow] at hmem
      have hall :=
        List.all_eq_true.mp table_inPath (row, cs) (List.mem_zipIdx_iff_getElem?.mpr hrow)
      simp only [hcs, Bool.not_true, Bool.false_or] at hall
      exact List.all_eq_true.mp hall e hmem
  have hbytes : c.toNat ≠ 32 ∧ c.toNat ≠ 35 ∧ c.toNat ≠ 63 :=
    ⟨fun h => hc.1 (UInt8.toNat_inj.mp h), fun h => hc.2.1 (UInt8.toNat_inj.mp h),
      fun h => hc.2.2 (UInt8.toNat_inj.mp h)⟩
  simp only [Edge.inPath, Bool.or_eq_true, Bool.and_eq_true, beq_iff_eq, decide_eq_true_eq]
    at hin hbyte
  rcases hin with hout | hin
  · omega
  · exact hin

/-- The rest of a path, in the states within it. -/
theorem reads_inPath {path : List UInt8} {q : ℕ} (hcs : inPath cs = true)
    (hbytes : ∀ c ∈ path, c ≠ 32 ∧ c ≠ 35 ∧ c ≠ 63)
    (htaken : ((automaton uri_relaxed).scan cs q (path ++ [32])).verdict = .more 4) :
    ∃ cs', (automaton uri_relaxed).Reads Layout.note cs p l path cs' l ∧
      EndsPath uri_relaxed cs' := by
  have hlt := lt_of_inPath hcs
  -- inside the path no byte has an action
  induction path generalizing cs p q with
  | nil =>
    refine ⟨cs, .nil, ?_⟩
    have hsome : (next uri_relaxed cs 32).isSome := by
      by_contra hnone
      rw [Option.not_isSome_iff_eq_none] at hnone
      rw [List.nil_append, Automaton.scan_error ((if_pos hlt).trans hnone)] at htaken
      cases htaken
    have hends := next_endsPath _ ⟨cs, hlt⟩ hcs hsome
    simp only [Prod.mk.injEq] at hends
    exact ⟨hlt, hends.1, hends.2.1, hends.2.2⟩
  | cons c path ih =>
    cases hnext : next uri_relaxed cs c with
    | none =>
      rw [List.cons_append, Automaton.scan_error ((if_pos hlt).trans hnext)] at htaken
      cases htaken
    | some edge =>
      obtain ⟨t, acts⟩ := edge
      obtain ⟨rfl, ht⟩ := next_inPath hcs (hbytes c (by simp)) hnext
      rw [List.cons_append, Automaton.scan_more ((if_pos hlt).trans hnext) rfl] at htaken
      obtain ⟨cs', hreads, hends⟩ := ih ht (fun d hd => hbytes d (List.mem_cons_of_mem _ hd)) htaken
        (lt_of_inPath ht)
      exact ⟨cs', reads_cons hlt hnext (by simp) hreads, hends⟩

theorem next_slash : ∀ r : Bool, next r 3 47 = some (33, [.mark]) := by
  decide

/-- **A path** is marked and read to a state in which it may end. -/
theorem reads_path {path : List UInt8} (h : IsPath uri_relaxed path) :
    ∃ cs, (automaton uri_relaxed).Reads Layout.note 3 p l path cs { l with mark := p } ∧
      EndsPath uri_relaxed cs := by
  obtain ⟨hroot, hbytes, htaken⟩ := h
  cases path with
  | nil => cases hroot
  | cons c path =>
    obtain rfl : c = 47 := Option.some.inj hroot
    have hnext : (automaton uri_relaxed).next 3 47 = some (33, [.mark]) := next_slash uri_relaxed
    rw [List.cons_append, Automaton.scan_more hnext rfl] at htaken
    obtain ⟨cs, hreads, hends⟩ := reads_inPath (by decide)
      (fun d hd => hbytes d (List.mem_cons_of_mem _ hd)) htaken
    exact ⟨cs, reads_cons (by decide) (next_slash uri_relaxed) (by decide) hreads, hends⟩

theorem loop_segments (r : Bool) :
    Loop r (fun c => isPchar r c || c = 47) 26 26 27 28 [] where
  enter := by revert r; decide +kernel
  stay := by revert r; decide +kernel
  escape := by revert r; decide +kernel
  first := by revert r; decide +kernel
  second := by revert r; decide +kernel
  states := by decide
  actions := by decide

theorem takes_segment (r : Bool) : Takes r (isPchar r) 33 26 [] ∧ next r 33 37 = some (27, []) := by
  revert r
  decide +kernel

theorem Encoded.mem {ok : UInt8 → Bool} (h : Encoded ok text) :
    ∀ c ∈ text, ok c = true ∨ c = 37 ∨ isXdigit c = true := by
  induction h with
  | nil => simp
  | cons hc _ ih =>
    intro c hmem
    rcases List.mem_cons.mp hmem with rfl | hmem
    · exact .inl hc
    · exact ih c hmem
  | escape ha hb _ ih =>
    intro c hmem
    simp only [List.mem_cons] at hmem
    rcases hmem with rfl | rfl | rfl | hmem
    · exact .inr (.inl rfl)
    · exact .inr (.inr ha)
    · exact .inr (.inr hb)
    · exact ih c hmem

/-- No byte of a path ends it. -/
theorem ne_of_segments : ∀ r : Bool, ∀ n : Fin 256,
    ((isPchar r (.ofNat n) || UInt8.ofNat n = 47) = true ∨ UInt8.ofNat n = 37 ∨
      isXdigit (.ofNat n) = true) →
        UInt8.ofNat n ≠ 32 ∧ UInt8.ofNat n ≠ 35 ∧ UInt8.ofNat n ≠ 63 := by
  decide +kernel

/-- **A path of segments**, the first of which is not empty, is a path. -/
theorem isPath_absolute {segments : List UInt8} (hfirst : segments.head? ≠ some 47)
    (h : Encoded (fun c => isPchar uri_relaxed c || c = 47) segments) :
    IsPath uri_relaxed (47 :: segments) := by
  obtain ⟨hsegment, hescape⟩ := takes_segment uri_relaxed
  have hblank : ∀ r, next r 26 32 = some (4, [.request_path, .request_uri]) ∧
      next r 33 32 = some (4, [.request_path, .request_uri]) := by decide
  have hloop := fun (text : List UInt8) (ht : Encoded _ text) (p : ℕ) (l : Layout) =>
    (reads_loop (p := p) (l := l) (loop_segments uri_relaxed) ht).append
      (reads_cons (by decide) (hblank uri_relaxed).1 (by decide) .nil)
  have htext := h.mem
  have hreads : ∃ l', (automaton uri_relaxed).Reads Layout.note 33 1
      (({} : Layout).note ⟨0, 47, .mark⟩) (segments ++ [32]) 4 l' := by
    cases h with
    | nil => exact ⟨_, reads_cons (by decide) (hblank uri_relaxed).2 (by decide) .nil⟩
    | @cons c rest hc hrest =>
      -- two slashes would start an authority
      have hne : c ≠ 47 := fun heq => hfirst (by rw [heq]; rfl)
      have hchar : isPchar uri_relaxed c = true := by simpa [hne] using hc
      exact ⟨_, reads_cons (by decide) (hsegment _ hchar) (by simp) (hloop rest hrest _ _)⟩
    | @escape a b rest ha hb hrest =>
      have hdigits := loop_segments uri_relaxed
      exact ⟨_, reads_cons (by decide) hescape (by simp)
        (reads_cons (by decide) (hdigits.first _ ha) (by simp)
          (reads_cons (by decide) (hdigits.second _ hb) (by simp) (hloop rest hrest _ _)))⟩
  obtain ⟨l', hreads⟩ := hreads
  have hslash := next_slash uri_relaxed
  refine ⟨rfl, fun c hc => ?_, (reads_cons (by decide) hslash (by decide) hreads).verdict⟩
  rcases List.mem_cons.mp hc with rfl | hc
  · decide
  · simpa using ne_of_segments uri_relaxed ⟨c.toNat, c.toNat_lt⟩ (by simpa using htext c hc)


theorem scan_version : ∀ r : Bool, ∀ text ∈ [bytes "HTTP/1.0\r\n", bytes "HTTP/1.1\r\n"],
    (automaton r).scan 4 0 text = ⟨.more 13, 10, [⟨0, 72, .mark⟩, ⟨8, 13, .http_version⟩]⟩ := by
  decide +kernel

theorem reads_version (h : text ∈ [bytes "HTTP/1.0\r\n", bytes "HTTP/1.1\r\n"]) :
    (automaton uri_relaxed).Reads Layout.note 4 p l text 13
      (({ l with mark := p }).add .version ⟨p, p + 8⟩) :=
  .of_scan (scan_version uri_relaxed text h) rfl

/-! ## The headers -/

/-- A line of the headers, with blanks in front of its value. -/
structure Line where
  name : List UInt8
  blank : List UInt8
  value : List UInt8

namespace Line

def dump (line : Line) : List UInt8 :=
  line.name ++ 58 :: (line.blank ++ (line.value ++ [13, 10]))

/-- The field that is noted of a line from the byte `p`. -/
def field (p : ℕ) (line : Line) : Field where
  name := ⟨p, p + line.name.length⟩
  value := ⟨p + line.name.length + 1 + line.blank.length,
    p + line.name.length + 1 + line.blank.length + line.value.length⟩

/-- The name is a token, and the value has no control characters and starts with no blank. -/
structure Valid (line : Line) : Prop where
  named : line.name ≠ []
  name : ∀ c ∈ line.name, isToken c = true
  blank : line.blank = [] ∨ line.blank = [32]
  value : ∀ c ∈ line.value, isContent c = true
  head : line.value.head? ≠ some 32

def fields (p : ℕ) : List Line → List Field
  | [] => []
  | line :: lines => line.field p :: fields (p + line.dump.length) lines

end Line

theorem takes_line (r : Bool) : next r 14 58 = some (15, [.write_field]) ∧
    next r 15 32 = some (15, [.start_value]) ∧
    next r 15 13 = some (17, [.start_value, .write_value]) ∧
    next r 16 13 = some (17, [.write_value]) ∧ next r 17 10 = some (13, []) := by
  revert r
  decide

/-- A loop without actions. -/
theorem reads_all (hcs : cs < 348) (h : ∀ c ∈ text, next uri_relaxed cs c = some (cs, [])) :
    (automaton uri_relaxed).Reads Layout.note cs p l text cs l :=
  .loop fun c hc => (if_pos hcs).trans (h c hc)

theorem reads_name {name : List UInt8} (hne : name ≠ []) (h : ∀ c ∈ name, isToken c = true) :
    (automaton uri_relaxed).Reads Layout.note 13 p l name 14 { l with field_start := p } := by
  obtain ⟨hfirst, hrest⟩ := takes_name uri_relaxed
  cases name with
  | nil => exact absurd rfl hne
  | cons c name =>
    exact reads_cons (by decide) (hfirst c (h c (by simp))) (by decide)
      (reads_all (by decide) fun d hd => hrest d (h d (List.mem_cons_of_mem _ hd)))

/-- The value and the end of its line. -/
theorem reads_value {value : List UInt8} (h : ∀ c ∈ value, isContent c = true)
    (hhead : value.head? ≠ some 32) :
    (automaton uri_relaxed).Reads Layout.note 15 p l (value ++ [13, 10]) 13
      { l with
        mark := p
        fields := l.fields ++ [⟨⟨l.field_start, l.field_end⟩, ⟨p, p + value.length⟩⟩] } := by
  obtain ⟨hfirst, hrest⟩ := takes_value uri_relaxed
  obtain ⟨-, -, hempty, hend, hline⟩ := takes_line uri_relaxed
  cases value with
  -- an empty value: the mark and the end are at the same byte
  | nil =>
    exact reads_cons (by decide) hempty (by decide) (reads_cons (by decide) hline (by simp) .nil)
  | cons c value =>
    have hc : (isContent c && c != 32) = true := by
      have hne : c ≠ 32 := fun heq => hhead (by rw [heq]; rfl)
      simp [h c, hne]
    have hloop : (automaton uri_relaxed).Reads Layout.note 16 (p + 1) { l with mark := p } value 16
        { l with mark := p } :=
      reads_all (by decide) fun d hd => hrest d (h d (List.mem_cons_of_mem _ hd))
    have hread := hloop.append
      (reads_cons (by decide) hend (by decide) (reads_cons (by decide) hline (by simp) .nil))
    have hlen : p + 1 + value.length = p + (c :: value).length := by
      rw [List.length_cons]
      omega
    rw [hlen] at hread
    exact reads_cons (by decide) (hfirst c hc) (by decide) hread

/-- The blanks in front of a value. -/
theorem reads_blank (uri_relaxed : Bool) (p : ℕ) (l : Layout) {blank : List UInt8}
    (h : blank = [] ∨ blank = [32]) :
    ∃ q, (automaton uri_relaxed).Reads Layout.note 15 p l blank 15 { l with mark := q } := by
  obtain ⟨-, hblank, -⟩ := takes_line uri_relaxed
  rcases h with rfl | rfl
  · exact ⟨l.mark, .nil⟩
  · exact ⟨p, reads_cons (by decide) hblank (by decide) .nil⟩

/-- **A line** is noted as one field. -/
theorem reads_line (uri_relaxed : Bool) (p : ℕ) (l : Layout) {line : Line} (h : line.Valid) :
    ∃ l', (automaton uri_relaxed).Reads Layout.note 13 p l line.dump 13 l' ∧
      l'.token = l.token ∧ l'.fields = l.fields ++ [line.field p] := by
  obtain ⟨hcolon, -⟩ := takes_line uri_relaxed
  have hname : (automaton uri_relaxed).Reads Layout.note 13 p l line.name 14
      { l with field_start := p } := reads_name h.named h.name
  obtain ⟨q, hblank⟩ := reads_blank uri_relaxed (p + line.name.length + 1)
    { l with field_start := p, field_end := p + line.name.length } h.blank
  exact ⟨_, hname.append (reads_cons (by decide) hcolon (by decide)
    (hblank.append (reads_value h.value h.head))), rfl, rfl⟩

theorem reads_lines (uri_relaxed : Bool) (p : ℕ) (l : Layout) {lines : List Line}
    (h : ∀ line ∈ lines, line.Valid) :
    ∃ l', (automaton uri_relaxed).Reads Layout.note 13 p l (lines.flatMap Line.dump) 13 l' ∧
      l'.token = l.token ∧ l'.fields = l.fields ++ Line.fields p lines := by
  induction lines generalizing p l with
  | nil => exact ⟨l, .nil, rfl, (List.append_nil _).symm⟩
  | cons line lines ih =>
    obtain ⟨l₁, hline, htoken, hfields⟩ := reads_line uri_relaxed p l (h line (by simp))
    obtain ⟨l₂, hlines, htoken', hfields'⟩ := ih (p + line.dump.length) l₁
      fun line hl => h line (List.mem_cons_of_mem _ hl)
    refine ⟨l₂, hline.append hlines, htoken'.trans htoken, ?_⟩
    rw [hfields', hfields, List.append_assoc]
    rfl

end Http

end Sylar
