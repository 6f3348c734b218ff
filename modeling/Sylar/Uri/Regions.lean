import Sylar.Uri.Model

/-!
# The regions of the machine

Behind a scheme and `://` the states of the machine fall into regions, which the machine passes in
one direction. Inside a region no action runs. A text without a `:` may be a host, or userinfo that
goes on until a `@`; behind its first `:` the digits may be the port, or userinfo again.

What the edges do is read off the table once, here. The rest of the development knows the regions
and not the states.

## Main definitions

* `region`: the region of a state
* `isHostChar`, `isUserChar`, `isPathChar`, `isQueryChar`: the bytes of the parts
* `userState`, `nameState`, `pathState`, `queryState`, `fragmentState`: where a state is in a text

## Main results

* `ranked`: the machine passes the regions in order, and runs no action inside one
* `reads_user` and its like: the texts that the regions read
* `twin`, `twin_edge`: a host is read alike behind `//` and behind `@`
-/

-- the edges of a state are checked all at once
set_option synthInstance.maxSize 400

namespace Sylar

open Foundation

namespace Uri

/-- The regions: 1 the start of the authority, 2 its text without a colon, 3 its first colon,
4 what comes behind it; 5 the start of the host behind `@`, 6 the host, 7 its colon, 8 the port;
10 the path; 11 the start of the query, 12 the query; 13 the start of the fragment, 14 the
fragment. The states of region 0 lie elsewhere. -/
def region (cs : ℕ) : ℕ :=
  if cs = 511 then 1
  else if cs = 253 ∨ cs = 254 ∨ cs = 520 ∨ 543 ≤ cs ∧ cs ≤ 560 then 2
  else if cs = 521 then 3
  else if 255 ≤ cs ∧ cs ≤ 257 ∨ cs = 542 then 4
  else if cs = 522 then 5
  else if cs = 514 then 7
  else if cs = 515 then 8
  else if cs = 243 ∨ cs = 244 ∨ cs = 513 then 10
  else if cs = 456 then 11
  else if cs = 7 ∨ cs = 8 ∨ cs = 457 then 12
  else if cs = 453 then 13
  else if cs = 1 ∨ cs = 2 ∨ cs = 454 then 14
  else if 229 ≤ cs ∧ cs ≤ 450 ∨ cs = 512 ∨ 516 ≤ cs ∧ cs ≤ 541 then 6
  else 0

theorem lt_of_region {cs : ℕ} (h : 0 < region cs) : cs < 561 := by
  by_contra hge
  have hzero : region cs = 0 := by
    unfold region
    repeat rw [if_neg (by omega)]
  omega

/-- The states at the start of a part, and the one behind the first colon. -/
def IsStart (cs : ℕ) : Prop := region cs ∈ [1, 3, 5, 7, 11, 13]

instance (cs : ℕ) : Decidable (IsStart cs) := by
  unfold IsStart
  infer_instance

theorem pos_of_isStart {cs : ℕ} (h : IsStart cs) : 0 < region cs := by
  refine Nat.pos_of_ne_zero fun hzero => ?_
  rw [IsStart, hzero] at h
  exact absurd h (by decide)

/-! ## Edges -/

/-- What the edges of the regions have in common. -/
structure Edge.Ordered (e : Edge) (cs : ℕ) : Prop where
  le : region cs ≤ region e.target
  silent : region e.target = region cs → e.actions = []
  /-- The start of a part is left at once. -/
  leaves : IsStart cs → region cs < region e.target
  /-- The first byte of a part is marked. -/
  marks : IsStart cs → region cs ≠ 3 → region e.target = region cs + 1 →
    e.actions = [.marku] ∨ e.actions = [.markh]

/-- Where the edges of the regions end a part. -/
structure Edge.Bounded (e : Edge) (cs : ℕ) : Prop where
  /-- The authority ends at one of three bytes. -/
  ends : region cs ≤ 8 → 10 ≤ region e.target → e.lo = e.hi ∧ e.lo ∈ [35, 47, 63]
  /-- A host ends in a final state, and at a colon if a port comes. -/
  host : region cs = 5 ∨ region cs = 6 → 7 ≤ region e.target → 451 ≤ cs ∧
    (region e.target ≤ 8 → e.target = 514 ∧ e.lo = 58 ∧ e.hi = 58)
  /-- Behind one `@` the authority has no other. -/
  once : 5 ≤ region cs → region cs ≤ 8 → 64 < e.lo ∨ e.hi < 64
  /-- The text of a host goes on up to a colon. -/
  colon : region cs ≤ 2 → region e.target = 3 ∨ region e.target = 4 →
    e.target = 521 ∧ e.lo = 58 ∧ e.hi = 58
  /-- A path ends at one of two bytes, and a query at one. -/
  tail : 10 ≤ region cs → region cs ≤ 12 → (region e.target ≤ 12 → 11 ≤ region e.target →
    region cs = 10 → e.lo = 63 ∧ e.hi = 63) ∧ (13 ≤ region e.target → e.lo = 35 ∧ e.hi = 35)

/-- Where the edges of a host stand to the brackets of an address. -/
structure Edge.Bracketed (e : Edge) (cs : ℕ) : Prop where
  /-- In the brackets a colon ends no host. -/
  colon : e.lo ≤ 58 ∧ 58 ≤ e.hi → region e.target = 6 → 260 ≤ e.target ∧ e.target ≤ 450
  /-- The brackets are closed by a `]`. -/
  close : 260 ≤ cs ∧ cs ≤ 450 → 260 ≤ e.target ∧ e.target ≤ 450 ∨ 93 ≤ e.lo

instance (e : Edge) (cs : ℕ) : Decidable (e.Ordered cs) :=
  decidable_of_iff (_ ∧ _ ∧ _ ∧ _)
    ⟨fun ⟨h₁, h₂, h₃, h₄⟩ => ⟨h₁, h₂, h₃, h₄⟩, fun ⟨h₁, h₂, h₃, h₄⟩ => ⟨h₁, h₂, h₃, h₄⟩⟩

instance (e : Edge) (cs : ℕ) : Decidable (e.Bounded cs) :=
  decidable_of_iff ((_ ∧ _) ∧ (_ ∧ _) ∧ _)
    ⟨fun ⟨⟨h₁, h₂⟩, ⟨h₃, h₄⟩, h₅⟩ => ⟨h₁, h₂, h₃, h₄, h₅⟩,
      fun ⟨h₁, h₂, h₃, h₄, h₅⟩ => ⟨⟨h₁, h₂⟩, ⟨h₃, h₄⟩, h₅⟩⟩

instance (e : Edge) (cs : ℕ) : Decidable (e.Bracketed cs) :=
  decidable_of_iff (_ ∧ _) ⟨fun ⟨h₁, h₂⟩ => ⟨h₁, h₂⟩, fun ⟨h₁, h₂⟩ => ⟨h₁, h₂⟩⟩

theorem length_table : table.length = 561 := by
  decide +kernel

/-- What holds of the rows of the table. -/
theorem forall_row {P : ℕ → List Edge → Prop} (h : ∀ row ∈ table.zipIdx, P row.2 row.1) {cs : ℕ}
    (hcs : cs < 561) : P cs (table.getD cs []) := by
  have hlt : cs < table.length := length_table ▸ hcs
  rw [List.getD_eq_getElem?_getD, List.getElem?_eq_getElem hlt, Option.getD_some]
  exact h (table[cs], cs) (List.mem_zipIdx_iff_getElem?.mpr (List.getElem?_eq_getElem hlt))

/-- What holds of the rows in front of one and of those behind it. -/
theorem forall_mem_zipIdx {P : List Edge × ℕ → Prop} (n : ℕ)
    (hfront : ∀ row ∈ table.zipIdx.take n, P row) (hbehind : ∀ row ∈ table.zipIdx.drop n, P row) :
    ∀ row ∈ table.zipIdx, P row := by
  intro row hrow
  rw [← List.take_append_drop n table.zipIdx, List.mem_append] at hrow
  exact hrow.elim (hfront row) (hbehind row)

/-- The edges of a row are for different bytes. -/
theorem table_ordered : ∀ row ∈ table.zipIdx, 0 < region row.2 →
    (row.1.Pairwise fun e e' => e.hi < e'.lo) ∧
      ∀ e ∈ row.1, (e.Ordered row.2 ∧ e.Bounded row.2) ∧
        (region row.2 = 5 ∨ region row.2 = 6 → e.Bracketed row.2) := by
  have hordered : ∀ row ∈ table.zipIdx, 0 < region row.2 →
      (row.1.Pairwise fun e e' => e.hi < e'.lo) ∧ ∀ e ∈ row.1, e.Ordered row.2 :=
    forall_mem_zipIdx 340 (by decide +kernel) (by decide +kernel)
  have hbounded : ∀ row ∈ table.zipIdx, 0 < region row.2 → ∀ e ∈ row.1, e.Bounded row.2 :=
    forall_mem_zipIdx 340 (by decide +kernel) (by decide +kernel)
  have hbracketed : ∀ row ∈ table.zipIdx, region row.2 = 5 ∨ region row.2 = 6 →
      ∀ e ∈ row.1, e.Bracketed row.2 :=
    forall_mem_zipIdx 340 (by decide +kernel) (by decide +kernel)
  exact fun row hrow hpos => ⟨(hordered row hrow hpos).1, fun e he =>
    ⟨⟨(hordered row hrow hpos).2 e he, hbounded row hrow hpos e he⟩,
      fun hhost => hbracketed row hrow hhost e he⟩⟩

theorem row_ordered {cs : ℕ} (hcs : 0 < region cs) :
    ((table.getD cs []).Pairwise fun e e' => e.hi < e'.lo) ∧
      ∀ e ∈ table.getD cs [], (e.Ordered cs ∧ e.Bounded cs) ∧
        (region cs = 5 ∨ region cs = 6 → e.Bracketed cs) :=
  forall_row (P := fun cs row => 0 < region cs → (row.Pairwise fun e e' => e.hi < e'.lo) ∧
    ∀ e ∈ row, (e.Ordered cs ∧ e.Bounded cs) ∧
      (region cs = 5 ∨ region cs = 6 → e.Bracketed cs)) table_ordered (lt_of_region hcs) hcs

/-- The edge that the machine takes. -/
theorem exists_edge {cs cs' : ℕ} {c : UInt8} {acts : List Action} (hcs : 0 < region cs)
    (h : machine.next cs c = some (cs', acts)) :
    ∃ e : Edge, e.Ordered cs ∧ e.Bounded cs ∧ e.target = cs' ∧ e.actions = acts ∧
      e.lo ≤ c.toNat ∧ c.toNat ≤ e.hi := by
  obtain ⟨e, he, heq⟩ := Option.map_eq_some_iff.mp h
  obtain ⟨htarget, hactions⟩ := Prod.mk.inj heq
  have hbyte := List.find?_some he
  rw [Bool.and_eq_true, Nat.ble_eq, Nat.ble_eq] at hbyte
  have hrow := (row_ordered hcs).2 e (List.mem_of_find?_eq_some he)
  exact ⟨e, and_assoc.mp ⟨hrow.1, htarget, hactions, hbyte⟩⟩

/-- **The machine passes the regions in order**, and runs no action inside one. -/
theorem ranked : machine.Ranked region where
  le hs h := by
    obtain ⟨e, he, -, rfl, -⟩ := exists_edge hs h
    exact he.le
  silent hs h heq := by
    obtain ⟨e, he, -, rfl, rfl, -⟩ := exists_edge hs h
    exact he.silent heq

/-! ## Rows -/

theorem select_eq_some {row : List Edge} (hrow : row.Pairwise fun e e' => e.hi < e'.lo) {c : ℕ}
    {r : ℕ × List Action} : select row c = some r ↔
      ∃ e ∈ row, e.lo ≤ c ∧ c ≤ e.hi ∧ (e.target, e.actions) = r := by
  induction row with
  | nil => simp [select]
  | cons e row ih =>
    rw [List.pairwise_cons] at hrow
    specialize ih hrow.2
    unfold select at ih ⊢
    by_cases he : e.lo ≤ c ∧ c ≤ e.hi
    · rw [List.find?_cons_of_pos (by simpa using he), Option.map_some, Option.some.injEq]
      constructor
      · intro heq
        exact ⟨e, by simp, he.1, he.2, heq⟩
      · rintro ⟨e', hmem, hlo, hhi, heq⟩
        rcases List.mem_cons.mp hmem with rfl | hmem
        · exact heq
        · have hlt := hrow.1 e' hmem
          omega
    · rw [List.find?_cons_of_neg (by simpa using he), ih, List.exists_mem_cons_iff]
      exact (or_iff_right fun ⟨hlo, hhi, _⟩ => he ⟨hlo, hhi⟩).symm

/-! ## Texts -/

/-- `unreserved`, or one of `sub_delims`. -/
def isNameChar (c : UInt8) : Bool :=
  isAlpha c || isDigit c || c = 33 || c = 36 || 38 ≤ c && c ≤ 46 || c = 59 || c = 61 || c = 95 ||
    c = 126

/-- The bytes of userinfo. -/
def isUserChar (c : UInt8) : Bool := isNameChar c || c = 58

def isPchar (c : UInt8) : Bool := 128 ≤ c || isNameChar c || c = 58 || c = 64

def isPathChar (c : UInt8) : Bool := isPchar c || c = 47

/-- The bytes of a query or a fragment. -/
def isQueryChar (c : UInt8) : Bool := isPchar c || c = 47 || c = 63

def userState (cs : ℕ) : Option Escape :=
  if cs = 511 ∨ cs = 520 ∨ cs = 521 ∨ cs = 542 ∨ cs = 255 ∨ 543 ≤ cs ∧ cs ≤ 560 then some .plain
  else if cs = 253 ∨ cs = 256 then some .first
  else if cs = 254 ∨ cs = 257 then some .second
  else none

def pathState (cs : ℕ) : Option Escape :=
  if cs = 513 then some .plain
  else if cs = 243 then some .first
  else if cs = 244 then some .second
  else none

def queryState (cs : ℕ) : Option Escape :=
  if cs = 456 ∨ cs = 457 then some .plain
  else if cs = 7 then some .first
  else if cs = 8 then some .second
  else none

def fragmentState (cs : ℕ) : Option Escape :=
  if cs = 453 ∨ cs = 454 then some .plain
  else if cs = 1 then some .first
  else if cs = 2 then some .second
  else none

theorem plain_of_pathState {cs : ℕ} (h : pathState cs = some .plain) : cs = 513 := by
  unfold pathState at h
  split_ifs at h with hcs
  · exact hcs
  · cases h
  · cases h

theorem plain_of_queryState {cs : ℕ} (h : queryState cs = some .plain) : cs = 456 ∨ cs = 457 := by
  unfold queryState at h
  split_ifs at h with hcs
  · exact hcs
  · cases h
  · cases h

theorem plain_of_fragmentState {cs : ℕ} (h : fragmentState cs = some .plain) :
    cs = 453 ∨ cs = 454 := by
  unfold fragmentState at h
  split_ifs at h with hcs
  · exact hcs
  · cases h
  · cases h

/-- From the byte `k` on, the edges of a row lead where `f` says. -/
def leads (state f : ℕ → Option Escape) : List Edge → ℕ → Bool
  | [], k => (List.range' k (256 - k)).all fun n => f n == none
  | e :: row, k =>
    (List.range' k (e.lo - k)).all (fun n => f n == none) &&
      (List.range' e.lo (e.hi + 1 - e.lo)).all (fun n => f n == state e.target) &&
      leads state f row (e.hi + 1)

theorem bind_select_of_leads {state f : ℕ → Option Escape} {row : List Edge}
    (hrow : row.Pairwise fun e e' => e.hi < e'.lo) {k n : ℕ} (h : leads state f row k = true)
    (hk : k ≤ n) (hn : n < 256) : ((select row n).map Prod.fst).bind state = f n := by
  induction row generalizing k with
  | nil =>
    rw [leads, List.all_eq_true] at h
    have hnone := h n (List.mem_range'_1.mpr (by omega))
    rw [beq_iff_eq.mp hnone]
    rfl
  | cons e row ih =>
    simp only [leads, Bool.and_eq_true, List.all_eq_true, beq_iff_eq] at h
    obtain ⟨⟨hgap, hedge⟩, hrest⟩ := h
    by_cases hhi : n ≤ e.hi
    · by_cases hlo : e.lo ≤ n
      · rw [(select_eq_some hrow).mpr ⟨e, by simp, hlo, hhi, rfl⟩,
          hedge n (List.mem_range'_1.mpr (by omega))]
        rfl
      · -- in front of the edge there is no other
        have hnone : select (e :: row) n = none := by
          refine Option.eq_none_iff_forall_ne_some.mpr fun r hr => ?_
          obtain ⟨e', hmem, hlo', -⟩ := (select_eq_some hrow).mp hr
          rcases List.mem_cons.mp hmem with rfl | hmem
          · exact hlo hlo'
          · have hlt := (List.pairwise_cons.mp hrow).1 e' hmem
            omega
        rw [hnone, hgap n (List.mem_range'_1.mpr (by omega))]
        rfl
    · rw [← ih (List.pairwise_cons.mp hrow).2 hrest (by omega), select,
        List.find?_cons_of_neg (by simp only [Bool.and_eq_true, Nat.ble_eq]; omega)]
      rfl

/-- From the region `lo` on, the machine reads a text of certain bytes in the regions up to `hi`. -/
structure Reads (ok : UInt8 → Bool) (state : ℕ → Option Escape) (lo hi : ℕ) : Prop where
  pos : 0 < lo
  /-- The text is over in the regions behind. -/
  high : ∀ cs < 561, hi < region cs → state cs = none
  low : ∀ row ∈ table.zipIdx, lo ≤ region row.2 → region row.2 ≤ hi →
    leads state (fun n => (state row.2).bind fun e => Escape.step ok e (.ofNat n)) row.1 0 = true

namespace Reads

variable {ok : UInt8 → Bool} {state : ℕ → Option Escape} {lo hi cs cs' : ℕ} {c : UInt8}
  {bs : List UInt8} {e : Escape}

theorem target (R : Reads ok state lo hi) (hcs : lo ≤ region cs) (c : UInt8) :
    (machine.target cs c).bind state = (state cs).bind fun e => Escape.step ok e c := by
  have hpos := Nat.lt_of_lt_of_le R.pos hcs
  by_cases hhi : region cs ≤ hi
  · have hrow := forall_row (P := fun cs row => lo ≤ region cs → region cs ≤ hi →
      leads state (fun n => (state cs).bind fun e => Escape.step ok e (.ofNat n)) row 0 = true)
      R.low (lt_of_region hpos) hcs hhi
    have hselect := bind_select_of_leads (row_ordered hpos).1 hrow (Nat.zero_le _) c.toNat_lt
    rw [UInt8.ofNat_toNat] at hselect
    exact hselect
  · rw [R.high cs (lt_of_region hpos) (Nat.not_le.mp hhi), Option.bind_none,
      Option.bind_eq_none_iff]
    intro cs' hcs'
    obtain ⟨acts, hnext⟩ := Automaton.target_eq_some.mp hcs'
    have hle := ranked.le hpos hnext
    exact R.high cs' (lt_of_region (by omega)) (by omega)

theorem path (R : Reads ok state lo hi) (hcs : lo ≤ region cs) :
    (machine.path cs bs).bind state = (state cs).bind fun e => bs.foldlM (Escape.step ok) e := by
  refine Automaton.path_bind (P := fun cs => lo ≤ region cs) ?_ ?_ hcs
  · intro cs c cs' acts hcs hnext
    exact Nat.le_trans hcs (ranked.le (Nat.lt_of_lt_of_le R.pos hcs) hnext)
  · intro cs c hcs
    exact R.target hcs c

/-- **A text is what leads from the start to a state between two bytes.** -/
theorem isText_iff (R : Reads ok state lo hi) (hcs : lo ≤ region cs)
    (hplain : state cs = some .plain) :
    IsText ok bs ↔ ∃ cs', machine.path cs bs = some cs' ∧ state cs' = some .plain := by
  have hpath : (machine.path cs bs).bind state = _ := R.path hcs
  rw [hplain, Option.bind_some] at hpath
  rw [IsText, ← hpath, Option.bind_eq_some_iff]

/-- The text goes on only in its regions. -/
theorem region_le (R : Reads ok state lo hi) (h : state cs = some e) (hcs : 0 < region cs) :
    region cs ≤ hi := by
  by_contra hhigh
  rw [R.high cs (lt_of_region hcs) (Nat.not_le.mp hhigh)] at h
  cases h

end Reads

/-- What is known of the states of the regions, whatever byte comes. -/
structure StateFacts (cs : ℕ) : Prop where
  values : region cs ≠ 9 ∧ region cs ≤ 14
  user : 4 < region cs → userState cs = none
  path : 10 < region cs → pathState cs = none
  query : 12 < region cs → queryState cs = none
  fragment : 14 < region cs → fragmentState cs = none
  /-- In a final state the text is between two bytes. -/
  final : 451 ≤ cs → (region cs = 10 → pathState cs = some .plain) ∧
    (region cs = 11 ∨ region cs = 12 → queryState cs = some .plain) ∧
    (region cs = 13 ∨ region cs = 14 → fragmentState cs = some .plain)

instance (cs : ℕ) : Decidable (StateFacts cs) :=
  decidable_of_iff ((_ ∧ _) ∧ (_ ∧ _) ∧ (_ ∧ _))
    ⟨fun ⟨⟨h₁, h₂⟩, ⟨h₃, h₄⟩, h₅, h₆⟩ => ⟨h₁, h₂, h₃, h₄, h₅, h₆⟩,
      fun ⟨h₁, h₂, h₃, h₄, h₅, h₆⟩ => ⟨⟨h₁, h₂⟩, ⟨h₃, h₄⟩, h₅, h₆⟩⟩

theorem stateFacts : ∀ cs < 561, StateFacts cs := by
  decide +kernel

/-- The texts that the regions read. -/
structure TableReads : Prop where
  user : Reads isUserChar userState 1 4
  path : Reads isPathChar pathState 10 10
  query : Reads isQueryChar queryState 11 12
  fragment : Reads isQueryChar fragmentState 13 14

theorem tableReads : TableReads where
  user :=
    { pos := Nat.one_pos
      high := fun cs hcs => (stateFacts cs hcs).user
      low := forall_mem_zipIdx 521 (by decide +kernel) (by decide +kernel) }
  path :=
    { pos := by decide
      high := fun cs hcs => (stateFacts cs hcs).path
      low := by decide +kernel }
  query :=
    { pos := by decide
      high := fun cs hcs => (stateFacts cs hcs).query
      low := by decide +kernel }
  fragment :=
    { pos := by decide
      high := fun cs hcs => (stateFacts cs hcs).fragment
      low := by decide +kernel }

theorem reads_user : Reads isUserChar userState 1 4 := tableReads.user

theorem reads_path : Reads isPathChar pathState 10 10 := tableReads.path

theorem reads_query : Reads isQueryChar queryState 11 12 := tableReads.query

theorem reads_fragment : Reads isQueryChar fragmentState 13 14 := tableReads.fragment

theorem region_values {cs : ℕ} (h : cs < 561) : region cs ≠ 9 ∧ region cs ≤ 14 :=
  (stateFacts cs h).values

theorem plain_of_final {cs : ℕ} (hcs : cs < 561) (h : 451 ≤ cs) :
    (region cs = 10 → pathState cs = some .plain) ∧
      (region cs = 11 ∨ region cs = 12 → queryState cs = some .plain) ∧
      (region cs = 13 ∨ region cs = 14 → fragmentState cs = some .plain) :=
  (stateFacts cs hcs).final h

/-! ## Hosts -/

/-- The state behind `@` that goes with a state of an authority without one. In the states 255 to
257 only a `@` helps. -/
def twin (cs : ℕ) : Option ℕ :=
  if cs = 511 then some 522
  else if cs = 520 then some 523
  else if cs = 521 then some 514
  else if cs = 542 then some 515
  else if cs = 253 ∨ cs = 254 then some (cs + 5)
  else if 255 ≤ cs ∧ cs ≤ 257 then none
  else if 543 ≤ cs ∧ cs ≤ 560 then some (cs - 19)
  else some cs

/-- A state and its twin end the string alike. -/
structure TwinFacts (cs : ℕ) : Prop where
  self : 5 ≤ region cs → twin cs = some cs
  image : 0 < region cs → ∀ cs' ∈ twin cs,
    (region cs ≤ 4 → 5 ≤ region cs' ∧ region cs' ≤ 8) ∧ (451 ≤ cs' ↔ 451 ≤ cs) ∧
      eofActions cs' = eofActions cs
  isSome : 0 < region cs → 451 ≤ cs → (twin cs).isSome = true

instance (cs : ℕ) : Decidable (TwinFacts cs) :=
  decidable_of_iff (_ ∧ _ ∧ _) ⟨fun ⟨h₁, h₂, h₃⟩ => ⟨h₁, h₂, h₃⟩, fun ⟨h₁, h₂, h₃⟩ => ⟨h₁, h₂, h₃⟩⟩

theorem twinFacts : ∀ cs < 561, TwinFacts cs := by
  decide +kernel

theorem twin_eq_self {cs : ℕ} (h : 5 ≤ region cs) : twin cs = some cs :=
  (twinFacts cs (lt_of_region (by omega))).self h

/-- The edges of a row with their ends moved along `twin`, but for the one at a `@`. -/
def twinRow (row : List Edge) : List Edge :=
  row.filterMap fun e =>
    if e.lo = 64 ∧ e.hi = 64 then none else (twin e.target).map fun target => { e with target }

theorem twin_low : ∀ row ∈ table.zipIdx, 0 < region row.2 → region row.2 ≤ 4 →
    (twin row.2).elim [] (table.getD · []) = twinRow row.1 := by
  decide +kernel

theorem mem_twinRow {row : List Edge} {e' : Edge} : e' ∈ twinRow row ↔ ∃ e ∈ row,
    ¬(e.lo = 64 ∧ e.hi = 64) ∧ ∃ target, twin e.target = some target ∧
      { e with target } = e' := by
  simp only [twinRow, List.mem_filterMap, Option.ite_none_left_eq_some, Option.map_eq_some_iff]

theorem select_twinRow {row : List Edge} (hrow : row.Pairwise fun e e' => e.hi < e'.lo) {c : ℕ}
    (hc : c ≠ 64) : select (twinRow row) c =
      (select row c).bind fun e => (twin e.1).map fun r => (r, e.2) := by
  have hsorted : (twinRow row).Pairwise fun e e' => e.hi < e'.lo := by
    refine hrow.filterMap _ fun e e' hlt f hf f' hf' => ?_
    simp only [Option.ite_none_left_eq_some, Option.map_eq_some_iff] at hf hf'
    obtain ⟨-, _, -, rfl⟩ := hf
    obtain ⟨-, _, -, rfl⟩ := hf'
    exact hlt
  ext r
  rw [select_eq_some hsorted, Option.bind_eq_some_iff]
  constructor
  · rintro ⟨e', hmem, hlo, hhi, rfl⟩
    obtain ⟨e, he, -, target, htarget, rfl⟩ := mem_twinRow.mp hmem
    exact ⟨_, (select_eq_some hrow).mpr ⟨e, he, hlo, hhi, rfl⟩, by rw [htarget]; rfl⟩
  · rintro ⟨_, hselect, hmap⟩
    obtain ⟨e, hmem, hlo, hhi, rfl⟩ := (select_eq_some hrow).mp hselect
    obtain ⟨target, htarget, rfl⟩ := Option.map_eq_some_iff.mp hmap
    exact ⟨{ e with target }, mem_twinRow.mpr ⟨e, hmem, by omega, target, htarget, rfl⟩, hlo, hhi,
      rfl⟩

/-- **A host and a port are read alike** at the start of an authority and behind its `@`. -/
theorem twin_edge {cs : ℕ} {c : UInt8} (hcs : 0 < region cs) (hc : c ≠ 64) :
    ((machine.next cs c).bind fun e => (twin e.1).map fun r => (r, e.2)) =
      (twin cs).bind fun r => machine.next r c := by
  by_cases hlow : region cs ≤ 4
  · have htwin := forall_row (P := fun cs row => 0 < region cs → region cs ≤ 4 →
      (twin cs).elim [] (table.getD · []) = twinRow row) twin_low (lt_of_region hcs) hcs hlow
    have hne : c.toNat ≠ 64 := fun heq => hc (UInt8.toNat_inj.mp heq)
    refine (select_twinRow (row_ordered hcs).1 hne).symm.trans ?_
    rw [← htwin]
    cases twin cs with
    | none => rfl
    | some r => rfl
  · rw [twin_eq_self (by omega), Option.bind_some]
    cases h : machine.next cs c with
    | none => rfl
    | some e =>
      have hle := ranked.le hcs h
      rw [Option.bind_some, twin_eq_self (by omega), Option.map_some]

theorem twin_image {cs cs' : ℕ} (hcs : 0 < region cs) (h : twin cs = some cs') :
    (region cs ≤ 4 → 5 ≤ region cs' ∧ region cs' ≤ 8) ∧ (451 ≤ cs' ↔ 451 ≤ cs) ∧
      eofActions cs' = eofActions cs :=
  (twinFacts cs (lt_of_region hcs)).image hcs cs' h

theorem twin_isSome {cs : ℕ} (hcs : 0 < region cs) (h : 451 ≤ cs) : (twin cs).isSome = true :=
  (twinFacts cs (lt_of_region hcs)).isSome hcs h

/-! ## Single edges -/

/-- The actions at the end of an authority. Those of a port that is empty leave no mark. -/
def endActions (cs : ℕ) : List Action :=
  if cs = 522 then [.markh, .save_host]
  else if cs = 514 then [.markh, .save_port]
  else if cs = 515 then [.save_port, .markh]
  else [.save_host, .markh]

/-- The bytes that end an authority, with the state behind each and what becomes of the path. -/
def endings : List (UInt8 × ℕ × List Action) :=
  [(47, 513, []), (63, 456, [.save_path]), (35, 453, [.save_path])]

/-- The edges between the parts. -/
structure SingleEdges (cs : ℕ) (edge : UInt8 → Option (ℕ × List Action)) : Prop where
  ends : 5 ≤ region cs → region cs ≤ 8 → ∀ e ∈ endings, edge e.1 =
    if 451 ≤ cs then some (e.2.1, endActions cs ++ e.2.2) else none
  eof : 5 ≤ region cs → region cs ≤ 8 → 451 ≤ cs → eofActions cs = endActions cs ++ [.save_path]
  port : region cs = 5 ∨ region cs = 6 → 451 ≤ cs →
    edge 58 = some (514, if cs = 522 then [.markh, .save_host] else [.save_host])
  /-- Behind the colon of a port there is no other. -/
  noColon : 7 ≤ region cs → region cs ≤ 8 → edge 58 = none
  user : region cs ≤ 4 → edge 64 = if userState cs = some .plain then
    some (522, if cs = 511 then [.markh, .save_userinfo] else [.save_userinfo]) else none
  colon : region cs ≤ 2 → userState cs = some .plain →
    edge 58 = some (521, if cs = 511 then [.markh, .save_host] else [.save_host])
  path : region cs = 10 →
    edge 63 = (if cs = 513 then some (456, [.save_path]) else none) ∧
      edge 35 = if cs = 513 then some (453, [.save_path]) else none
  query : region cs = 11 ∨ region cs = 12 →
    edge 35 = if cs = 456 then some (453, [.marku, .save_query])
      else if cs = 457 then some (453, [.save_query]) else none

instance (cs : ℕ) (edge : UInt8 → Option (ℕ × List Action)) : Decidable (SingleEdges cs edge) :=
  decidable_of_iff ((_ ∧ _) ∧ (_ ∧ _) ∧ (_ ∧ _) ∧ (_ ∧ _))
    ⟨fun ⟨⟨h₁, h₂⟩, ⟨h₃, h₄⟩, ⟨h₅, h₆⟩, h₇, h₈⟩ => ⟨h₁, h₂, h₃, h₄, h₅, h₆, h₇, h₈⟩,
      fun ⟨h₁, h₂, h₃, h₄, h₅, h₆, h₇, h₈⟩ => ⟨⟨h₁, h₂⟩, ⟨h₃, h₄⟩, ⟨h₅, h₆⟩, h₇, h₈⟩⟩

theorem table_single : ∀ row ∈ table.zipIdx, 0 < region row.2 →
    SingleEdges row.2 fun c => select row.1 c.toNat := by
  decide +kernel

theorem singleEdges {cs : ℕ} (hcs : 0 < region cs) : SingleEdges cs (next cs) :=
  forall_row (P := fun cs row => 0 < region cs → SingleEdges cs fun c => select row c.toNat)
    table_single (lt_of_region hcs) hcs

/-- A digit behind the first colon is marked, since it may be the port. -/
theorem digit_edge : ∀ n : Fin 256, ((next 521 (.ofNat n)).all fun e => region e.1 != 4 ||
    decide (e.2 = if isDigit (.ofNat n) then [.markh] else [])) = true := by
  decide +kernel

theorem digits_edge : ∀ n : Fin 256, n.val ≠ 35 → n.val ≠ 47 → n.val ≠ 63 →
    next 514 (.ofNat n) = (if isDigit (.ofNat n) then some (515, [.markh]) else none) ∧
      next 515 (.ofNat n) = if isDigit (.ofNat n) then some (515, []) else none := by
  decide +kernel

theorem bracket_region {cs : ℕ} (hlo : 260 ≤ cs) (hhi : cs ≤ 450) : region cs = 6 := by
  unfold region
  repeat rw [if_neg (by omega)]
  rw [if_pos (by omega)]

theorem bracket_edge {cs r : ℕ} {c : UInt8} {acts : List Action}
    (hcs : region cs = 5 ∨ region cs = 6) (h : machine.next cs c = some (r, acts)) :
    (c = 58 → region r = 6 → 260 ≤ r ∧ r ≤ 450) ∧
      (260 ≤ cs ∧ cs ≤ 450 → 260 ≤ r ∧ r ≤ 450 ∨ 93 ≤ c.toNat) := by
  obtain ⟨e, he, heq⟩ := Option.map_eq_some_iff.mp h
  obtain ⟨rfl, rfl⟩ := Prod.mk.inj heq
  have hbyte := List.find?_some he
  rw [Bool.and_eq_true, Nat.ble_eq, Nat.ble_eq] at hbyte
  have hrow := (row_ordered (by omega)).2 e (List.mem_of_find?_eq_some he)
  have hbracket := hrow.2 hcs
  refine ⟨?_, fun hin => (hbracket.close hin).imp_right fun hlo => Nat.le_trans hlo hbyte.1⟩
  rintro rfl
  exact hbracket.colon hbyte

/-- The bytes of a scheme behind the first one. -/
def isSchemeChar (c : UInt8) : Bool := isAlpha c || isDigit c || c = 43 || c = 45 || c = 46

theorem scheme_edge : ∀ n : Fin 256,
    (isAlpha (.ofNat n) = true → next 451 (.ofNat n) = some (508, [.marku])) ∧
      (isSchemeChar (.ofNat n) = true → next 508 (.ofNat n) = some (508, [])) := by
  decide +kernel

end Uri

end Sylar
