import Mathlib.Data.List.TakeWhile
import Sylar.Uri.Regions

/-!
# The parts of a URI

A URI with an authority is made of parts, and most of them may be missing with the separator that
belongs to them. What `Create` makes of a string that has parts is read off them: a run over the
string is a run over one part after the other, and each of them is marked at its first byte and
saved at the separator behind it.

Two parts are not saved as they stand in the string. The digit that starts the port is marked at
the first colon of the authority, where it is not known yet that userinfo comes: of userinfo with a
digit behind its first colon only what comes from that digit on is saved. And the end of an empty
port leaves no mark for the path, so that saving the path is an exception.

## Main definitions

* `Parts`: the parts of a URI, `Parts.text`: the string, `Parts.uri`: what is made of it
* `savedUser`: what is saved of userinfo
* `finish`: what `Create` does at the end of the string

## Main results

* `exec_part`: the first byte of a part is marked
* `exec_user`, `exec_hostPort`, `exec_path`: the runs over single parts
* `create_text`: what `Create` makes of a string with the parts
-/

namespace Sylar

open Foundation

namespace Uri

/-! ## Parts -/

/-- A scheme. -/
def IsScheme : List UInt8 → Prop
  | [] => False
  | c :: text => isAlpha c = true ∧ ∀ b ∈ text, isSchemeChar b = true

/-- A host: what leads behind `@` to a state in which the host may end. -/
def IsHost (text : List UInt8) : Prop :=
  ∃ cs, machine.path 522 text = some cs ∧ region cs ≤ 6 ∧ 451 ≤ cs

/-- The path behind an authority. -/
def IsPath : List UInt8 → Prop
  | [] => True
  | c :: text => c = 47 ∧ IsText isPathChar text

/-- The parts of a URI with an authority. A part that has a separator of its own may be missing. -/
structure Parts where
  scheme : List UInt8
  user : Option (List UInt8)
  host : List UInt8
  port : Option (List UInt8)
  path : List UInt8
  query : Option (List UInt8)
  fragment : Option (List UInt8)
  isScheme : IsScheme scheme
  isUser : ∀ text ∈ user, IsText isUserChar text
  isHost : IsHost host
  isPort : ∀ text ∈ port, ∀ c ∈ text, isDigit c = true
  isPath : IsPath path
  isQuery : ∀ text ∈ query, IsText isQueryChar text
  isFragment : ∀ text ∈ fragment, IsText isQueryChar text

/-- A part behind its separator. -/
def behind (separator : UInt8) (part : Option (List UInt8)) : List UInt8 :=
  part.elim [] (separator :: ·)

/-- A part in front of its separator. -/
def ahead (separator : UInt8) (part : Option (List UInt8)) : List UInt8 :=
  part.elim [] (· ++ [separator])

/-- A part in front of the last of its separators. -/
theorem ahead_append_inj {c : UInt8} {part part' : Option (List UInt8)}
    {rest rest' : List UInt8} (hrest : c ∉ rest) (hrest' : c ∉ rest')
    (h : ahead c part ++ rest = ahead c part' ++ rest') :
    part = part' ∧ rest = rest' := by
  cases part with
  | none =>
    cases part' with
    | none => exact ⟨rfl, h⟩
    | some text' =>
      rw [ahead, Option.elim_none, List.nil_append, ahead, Option.elim_some] at h
      rw [h] at hrest
      exact absurd (by simp) hrest
  | some text =>
    cases part' with
    | none =>
      rw [ahead, Option.elim_some, ahead, Option.elim_none, List.nil_append] at h
      rw [← h] at hrest'
      exact absurd (by simp) hrest'
    | some text' =>
      simp only [ahead, Option.elim_some, List.append_assoc, List.singleton_append] at h
      obtain ⟨rfl, rfl⟩ := eq_of_append_cons hrest hrest' h
      exact ⟨rfl, rfl⟩

/-- The text behind the first colon. -/
def afterColon (text : List UInt8) : List UInt8 := (text.dropWhile (· ≠ 58)).drop 1

/-- A digit stands behind the first colon. -/
def Restarts (text : List UInt8) : Prop := ∃ c ∈ (afterColon text).head?, isDigit c = true

instance (text : List UInt8) : Decidable (Restarts text) := by
  unfold Restarts
  infer_instance

/-- What is saved of userinfo: the mark moves to a digit behind the first colon, where the port
would start. -/
def savedUser (text : List UInt8) : List UInt8 :=
  if Restarts text then afterColon text else text

theorem afterColon_of_not_mem {text : List UInt8} (h : 58 ∉ text) : afterColon text = [] := by
  rw [afterColon, List.dropWhile_eq_nil_iff.mpr, List.drop_nil]
  intro c hc
  exact decide_eq_true (ne_of_mem_of_not_mem hc h)

theorem afterColon_append {name rest : List UInt8} (h : 58 ∉ name) :
    afterColon (name ++ 58 :: rest) = rest := by
  have hname : ∀ c ∈ name, decide (c ≠ 58) = true := fun c hc =>
    decide_eq_true (ne_of_mem_of_not_mem hc h)
  rw [afterColon, List.dropWhile_append_of_pos hname, List.dropWhile_cons_of_neg (by simp),
    List.drop_one, List.tail_cons]

theorem restarts_append {name rest : List UInt8} (h : 58 ∉ name) :
    Restarts (name ++ 58 :: rest) ↔ ∃ c ∈ rest.head?, isDigit c = true := by
  rw [Restarts, afterColon_append h]

theorem not_restarts_of_not_mem {text : List UInt8} (h : 58 ∉ text) : ¬ Restarts text := by
  rw [Restarts, afterColon_of_not_mem h]
  simp

theorem savedUser_append {name rest : List UInt8} (h : 58 ∉ name) :
    savedUser (name ++ 58 :: rest) =
      if ∃ c ∈ rest.head?, isDigit c = true then rest else name ++ 58 :: rest :=
  if_congr (restarts_append h) (afterColon_append h) rfl

theorem savedUser_of_not_mem {text : List UInt8} (h : 58 ∉ text) : savedUser text = text :=
  if_neg (not_restarts_of_not_mem h)

namespace Parts

variable (P : Parts)

def authority : List UInt8 := ahead 64 P.user ++ (P.host ++ behind 58 P.port)

def tail : List UInt8 := P.path ++ (behind 63 P.query ++ behind 35 P.fragment)

/-- The string that has the parts. -/
def text : List UInt8 := P.scheme ++ bytes "://" ++ (P.authority ++ P.tail)

/-- What `Create` makes of the parts. -/
def uri : Uri where
  scheme := P.scheme
  userinfo := savedUser (P.user.getD [])
  host := P.host
  path := P.path
  query := P.query.getD []
  fragment := P.fragment.getD []
  port := (P.port.map atoi).getD 0

end Parts

/-! ## Runs -/

theorem machine_next (cs : ℕ) (c : UInt8) : machine.next cs c = next cs c := rfl

/-- What `Create` does at the end of the string. -/
def finish (uristr : List UInt8) (r : Option ℕ × Locals) : Option (Option Uri) :=
  match r.1 with
  | none => some none
  | some cs =>
    ((eofActions cs).foldlM (act uristr uristr.length) r.2).map fun l =>
      if 451 ≤ cs then some l.uri else none

theorem create_eq (uristr : List UInt8) :
    create uristr = (machine.exec (act uristr) 451 0 {} uristr).bind (finish uristr) := rfl

section Runs

variable {uristr part rest : List UInt8} {mark p cs : ℕ} {l l' : Locals} {c : UInt8}
  {uri : Uri}

/-- **A saved part**: what stands between the mark and the byte. -/
theorem text_eq (h : uristr.drop mark = part ++ rest) :
    text uristr (some mark) (mark + part.length) = some part := by
  rw [text, Option.map_some, h, Nat.add_sub_cancel_left, List.take_left]

theorem drop_add (h : uristr.drop p = part ++ rest) : uristr.drop (p + part.length) = rest := by
  rw [← List.drop_drop, h, List.drop_left]

/-- A run that ends at the end of the string. -/
theorem finish_eq (hfinal : 451 ≤ cs)
    (h : (eofActions cs).foldlM (act uristr uristr.length) l = some l') :
    finish uristr (some cs, l) = some (some l'.uri) := by
  rw [finish]
  simp only [h, Option.map_some, if_pos hfinal]

/-- The start of a part is left at its first byte. -/
theorem lt_of_path (hstart : IsStart cs) {cs' : ℕ}
    (hpath : machine.path cs (c :: part) = some cs') : region cs < region cs' := by
  obtain ⟨r, acts, hnext, hrest⟩ := Automaton.path_cons_eq_some.mp hpath
  obtain ⟨e, he, -, rfl, -⟩ := exists_edge (pos_of_isStart hstart) hnext
  have hlt := he.leaves hstart
  exact Nat.lt_of_lt_of_le hlt (ranked.path_le (by omega) hrest)

/-- **The first byte of a part is marked**, and the others run no action. -/
theorem exec_part (hstart : IsStart cs) (hne : region cs ≠ 3) {cs' : ℕ}
    (hpath : machine.path cs (c :: part) = some cs') (hcs' : region cs' = region cs + 1) :
    machine.exec (act uristr) cs p l (c :: part) = some (some cs', { l with mark := some p }) := by
  obtain ⟨r, acts, hnext, hrest⟩ := Automaton.path_cons_eq_some.mp hpath
  obtain ⟨e, he, -, rfl, rfl, -⟩ := exists_edge (pos_of_isStart hstart) hnext
  have hlt := he.leaves hstart
  have hle := ranked.path_le (by omega) hrest
  have hregion : region e.target = region cs + 1 := by omega
  have hacts : e.actions.foldlM (act uristr p) l = some { l with mark := some p } := by
    rcases he.marks hstart hne hregion with h | h <;> rw [h] <;> rfl
  rw [Automaton.exec_cons hnext, hacts, Option.bind_some]
  exact ranked.exec_eq (by omega) hrest (by omega)

/-- A part that starts where `Create` marks it, up to its end. -/
theorem exec_saved {ok : UInt8 → Bool} {state : ℕ → Option Escape} (start inside : ℕ)
    (put : List UInt8 → Uri → Uri) {a : Action}
    (R : Reads ok state (region start) (region start + 1))
    (hstart : IsStart start) (hne : region start ≠ 3) (hplain : state start = some .plain)
    (hinside : ∀ cs, state cs = some .plain → cs = start ∨ cs = inside)
    (hbegin : eofActions start = [.marku, a]) (hend : eofActions inside = [a])
    (hput : ∀ (l : Locals) v m fpc, text uristr (some m) fpc = some v →
      act uristr fpc { l with mark := some m } a = some { mark := none, uri := put v l.uri })
    (hpart : IsText ok part) (hdrop : uristr.drop p = part ++ rest) (l : Locals) :
    ∃ cs l', machine.exec (act uristr) start p l part = some (some cs, l') ∧
      (cs = start ∨ cs = inside) ∧ (eofActions cs).foldlM (act uristr (p + part.length)) l' =
        some { mark := none, uri := put part l.uri } := by
  have htext := text_eq hdrop
  cases part with
  | nil =>
    refine ⟨start, l, rfl, .inl rfl, ?_⟩
    rw [hbegin]
    exact (Option.bind_fun_some _).trans (hput l _ p _ htext)
  | cons c part =>
    obtain ⟨cs, hpath, hcs⟩ := (R.isText_iff (Nat.le_refl _) hplain).mp hpart
    have hlt := lt_of_path hstart hpath
    have hle : region cs ≤ region start + 1 := R.region_le hcs (by omega)
    -- behind a byte the machine is not at the start any more
    obtain rfl : cs = inside := (hinside cs hcs).resolve_left fun heq => by
      rw [heq] at hlt
      exact Nat.lt_irrefl _ hlt
    refine ⟨cs, _, exec_part hstart hne hpath (by omega), .inr rfl, ?_⟩
    rw [hend]
    exact (Option.bind_fun_some _).trans (hput l _ p _ htext)

theorem exec_query (hpart : IsText isQueryChar part) (hdrop : uristr.drop p = part ++ rest)
    (l : Locals) : ∃ cs l', machine.exec (act uristr) 456 p l part = some (some cs, l') ∧
      (cs = 456 ∨ cs = 457) ∧ (eofActions cs).foldlM (act uristr (p + part.length)) l' =
        some { mark := none, uri := { l.uri with query := part } } := by
  refine exec_saved 456 457 (fun v uri => { uri with query := v }) reads_query (by decide)
    (by decide) rfl (fun cs => plain_of_queryState) rfl rfl ?_ hpart hdrop l
  intro l v m fpc hv
  simp only [act, hv, Option.map_some]

theorem exec_fragment (hpart : IsText isQueryChar part) (hdrop : uristr.drop p = part ++ rest)
    (l : Locals) : ∃ cs l', machine.exec (act uristr) 453 p l part = some (some cs, l') ∧
      (cs = 453 ∨ cs = 454) ∧ (eofActions cs).foldlM (act uristr (p + part.length)) l' =
        some { mark := none, uri := { l.uri with fragment := part } } := by
  refine exec_saved 453 454 (fun v uri => { uri with fragment := v }) reads_fragment (by decide)
    (by decide) rfl (fun cs => plain_of_fragmentState) rfl rfl ?_ hpart hdrop l
  intro l v m fpc hv
  simp only [act, hv, Option.map_some]

/-- The end of the string, behind a part that may be followed by a fragment. -/
theorem finish_fragment {fragment : Option (List UInt8)}
    (hpart : ∀ text ∈ fragment, IsText isQueryChar text) (hfinal : 451 ≤ cs)
    (hnext : next cs 35 = some (453, eofActions cs))
    (hclose : (eofActions cs).foldlM (act uristr p) l = some l') (hp : p ≤ uristr.length)
    (hdrop : uristr.drop p = behind 35 fragment) :
    (machine.exec (act uristr) cs p l (behind 35 fragment)).bind (finish uristr) =
      some (some { l'.uri with fragment := fragment.getD l'.uri.fragment }) := by
  have hlen := congrArg List.length hdrop
  rw [List.length_drop] at hlen
  cases fragment with
  | none =>
    obtain rfl : p = uristr.length := by
      rw [behind, Option.elim_none, List.length_nil] at hlen
      omega
    exact finish_eq hfinal hclose
  | some fragment =>
    rw [behind, Option.elim_some] at hdrop hlen ⊢
    have hrest : uristr.drop (p + 1) = fragment ++ [] := by
      rw [← List.drop_drop, hdrop, List.drop_one, List.tail_cons, List.append_nil]
    obtain ⟨cs', l₂, hexec, hcs', hsave⟩ := exec_fragment (hpart fragment rfl) hrest l'
    have hlast : p + 1 + fragment.length = uristr.length := by
      rw [List.length_cons] at hlen
      omega
    rw [Automaton.exec_cons hnext, hclose, Option.bind_some, hexec, Option.bind_some]
    rw [hlast] at hsave
    exact finish_eq (by omega) hsave

/-- The end of the string, behind a path. -/
theorem finish_query {query fragment : Option (List UInt8)}
    (hquery : ∀ text ∈ query, IsText isQueryChar text)
    (hfragment : ∀ text ∈ fragment, IsText isQueryChar text) (hfinal : 451 ≤ cs)
    (hnext : next cs 35 = some (453, eofActions cs))
    (hnext' : next cs 63 = some (456, eofActions cs))
    (hclose : (eofActions cs).foldlM (act uristr p) l = some l') (hp : p ≤ uristr.length)
    (hdrop : uristr.drop p = behind 63 query ++ behind 35 fragment) :
    (machine.exec (act uristr) cs p l (behind 63 query ++ behind 35 fragment)).bind
        (finish uristr) =
      some (some { l'.uri with query := query.getD l'.uri.query
                               fragment := fragment.getD l'.uri.fragment }) := by
  cases query with
  | none => exact finish_fragment hfragment hfinal hnext hclose hp hdrop
  | some query =>
    have hlen := congrArg List.length hdrop
    rw [List.length_drop, List.length_append] at hlen
    rw [behind, Option.elim_some] at hdrop hlen ⊢
    have hrest : uristr.drop (p + 1) = query ++ behind 35 fragment := by
      rw [← List.drop_drop, hdrop, List.cons_append, List.drop_one, List.tail_cons]
    obtain ⟨cs', l₂, hexec, hcs', hsave⟩ := exec_query (hquery query rfl) hrest l'
    have hedge : next cs' 35 = some (453, eofActions cs') := by
      rcases hcs' with rfl | rfl <;> decide
    rw [List.length_cons] at hlen
    rw [List.cons_append, Automaton.exec_cons hnext', hclose, Option.bind_some]
    rw [Automaton.exec_append hexec]
    exact finish_fragment hfragment (by omega) hedge hsave (by omega) (drop_add hrest)

/-! ### Paths -/

/-- A path behind an authority, of which the end actions make `l'`. Without a mark there is no
saving the path. -/
theorem exec_path (hpath : IsPath part) (hlow : 5 ≤ region cs) (hhigh : region cs ≤ 8)
    (hfinal : 451 ≤ cs) (hend : (endActions cs).foldlM (act uristr p) l = some l')
    (hmark : l'.mark = some p ∨ l'.mark = none) (hdrop : uristr.drop p = part ++ rest) :
    ∃ cs₁ l₁, machine.exec (act uristr) cs p l part = some (some cs₁, l₁) ∧ 451 ≤ cs₁ ∧
      next cs₁ 35 = some (453, eofActions cs₁) ∧ next cs₁ 63 = some (456, eofActions cs₁) ∧
      (eofActions cs₁).foldlM (act uristr (p + part.length)) l₁ =
        l'.mark.map fun _ => { mark := none, uri := { l'.uri with path := part } } := by
  have hpos := Nat.lt_of_lt_of_le (by decide : 0 < 5) hlow
  have hends := (singleEdges hpos).ends hlow hhigh
  simp only [if_pos hfinal] at hends
  -- the path is saved at the next separator or at the end of the string
  have hsave : act uristr (p + part.length) l' .save_path =
      l'.mark.map fun _ => { mark := none, uri := { l'.uri with path := part } } := by
    rcases hmark with hmark | hmark
    · simp only [act, hmark, text_eq hdrop, Option.map_some]
    · simp only [act, hmark, text, Option.map_none]
  cases part with
  | nil =>
    have heof := (singleEdges hpos).eof hlow hhigh hfinal
    refine ⟨cs, l, rfl, hfinal, ?_, ?_, ?_⟩
    · exact (hends (35, 453, [.save_path]) (by decide)).trans (by rw [heof])
    · exact (hends (63, 456, [.save_path]) (by decide)).trans (by rw [heof])
    · rw [heof, List.foldlM_append, List.length_nil, Nat.add_zero, hend]
      exact (Option.bind_fun_some _).trans hsave
  | cons c part =>
    obtain ⟨rfl, hpart⟩ := hpath
    obtain ⟨cs₁, hpart, hcs₁⟩ := (reads_path.isText_iff (by decide) (rfl : pathState 513 = _)).mp
      hpart
    obtain rfl := plain_of_pathState hcs₁
    have hslash : machine.next cs 47 = some (513, endActions cs) :=
      (hends (47, 513, []) (by decide)).trans (by rw [List.append_nil])
    refine ⟨513, l', ?_, by decide, by decide +kernel, by decide +kernel, ?_⟩
    · rw [Automaton.exec_cons hslash, hend, Option.bind_some]
      exact ranked.exec_eq (by decide) hpart rfl
    · exact (Option.bind_fun_some _).trans hsave

/-! ### Hosts and ports -/

theorem act_save_host (h : text uristr (some mark) p = some part) (l : Locals) :
    act uristr p { l with mark := some mark } .save_host =
      some { mark := some mark, uri := { l.uri with host := part } } := by
  simp only [act, h, Option.map_some, reduceCtorEq, if_false]

theorem exec_host (hhost : IsHost part) (hdrop : uristr.drop p = part ++ rest) (l : Locals) :
    ∃ cs l', machine.exec (act uristr) 522 p l part = some (some cs, l') ∧ 5 ≤ region cs ∧
      region cs ≤ 6 ∧ 451 ≤ cs ∧
      (endActions cs).foldlM (act uristr (p + part.length)) l' =
        some { mark := some (p + part.length), uri := { l.uri with host := part } } ∧
      ∃ acts, next cs 58 = some (514, acts) ∧ acts.foldlM (act uristr (p + part.length)) l' =
        some { mark := some p, uri := { l.uri with host := part } } := by
  obtain ⟨cs, hpath, hregion, hfinal⟩ := hhost
  have hlow : 5 ≤ region cs := ranked.path_le (s := 522) (by decide) hpath
  have hcolon := (singleEdges (by omega)).port (by omega) hfinal
  have htext := text_eq hdrop
  cases part with
  | nil =>
    obtain rfl := Option.some.inj hpath
    have hsave : (endActions 522).foldlM (act uristr p) l =
        some { mark := some p, uri := { l.uri with host := [] } } := by
      exact (Option.bind_fun_some _).trans (act_save_host htext l)
    exact ⟨522, l, rfl, hlow, hregion, hfinal, hsave, _, hcolon, hsave⟩
  | cons c part =>
    have hlt : 5 < region cs := lt_of_path (by decide : IsStart 522) hpath
    have hne : ∀ cs', region cs' ≠ 6 → cs ≠ cs' := by
      rintro cs' hcs' rfl
      omega
    have hsave := act_save_host htext l
    refine ⟨cs, _, exec_part (by decide) (by decide) hpath ?_, hlow, hregion, hfinal, ?_, _, hcolon,
      ?_⟩
    · change region cs = 6
      omega
    · rw [endActions, if_neg (hne 522 (by decide)), if_neg (hne 514 (by decide)),
        if_neg (hne 515 (by decide)), List.foldlM_cons, hsave]
      rfl
    · rw [if_neg (hne 522 (by decide)), List.foldlM_cons, hsave]
      rfl

theorem digit_bounds (hc : isDigit c = true) : c.toNat ≠ 35 ∧ c.toNat ≠ 47 ∧ c.toNat ≠ 63 := by
  have hrange := isDigit_iff.mp hc
  omega

/-- The states of a port. -/
theorem digit_next (hc : isDigit c = true) :
    machine.next 514 c = some (515, [.markh]) ∧ machine.next 515 c = some (515, []) := by
  obtain ⟨h₁, h₂, h₃⟩ := digit_bounds hc
  have hedge := digits_edge ⟨c.toNat, c.toNat_lt⟩ h₁ h₂ h₃
  rw [machine_next, machine_next]
  simpa only [UInt8.ofNat_toNat, hc, if_true] using hedge

theorem path_digits (hpart : ∀ b ∈ part, isDigit b = true) :
    machine.path 515 part = some 515 := by
  induction part with
  | nil => rfl
  | cons d part ih =>
    exact Automaton.path_cons_eq_some.mpr ⟨515, [], (digit_next (hpart d (by simp))).2,
      ih fun b hb => hpart b (List.mem_cons_of_mem _ hb)⟩

/-- A number that starts with a digit. -/
theorem strtol_cons (hc : isDigit c = true) :
    strtol (c :: rest) = min (2 ^ 63 - 1) (numeral ((c :: rest).takeWhile isDigit) : Int) := by
  have hrange := isDigit_iff.mp hc
  have hspace : isSpace c = false := by
    simp only [isSpace, Bool.or_eq_false_iff, Bool.and_eq_false_iff, decide_eq_false_iff_not,
      UInt8.le_iff_toNat_le]
    constructor
    · rintro rfl
      exact absurd hrange (by decide)
    · refine .inr fun hle => ?_
      have h13 : (13 : UInt8).toNat = 13 := rfl
      omega
  rw [strtol, List.dropWhile_cons_of_neg (by simp [hspace])]
  split
  · rename_i heq
    obtain ⟨rfl, -⟩ := List.cons.inj heq
    exact absurd hrange (by decide)
  · rename_i heq
    obtain ⟨rfl, -⟩ := List.cons.inj heq
    exact absurd hrange (by decide)
  · rfl

/-- **A number ends** where its digits do. -/
theorem atoi_append (hpart : ∀ b ∈ part, isDigit b = true) (hne : part ≠ [])
    (hrest : ∀ b ∈ rest.head?, isDigit b = false) : atoi (part ++ rest) = atoi part := by
  have htake : (part ++ rest).takeWhile isDigit = part.takeWhile isDigit := by
    rw [List.takeWhile_append_of_pos hpart, List.takeWhile_eq_self_iff.mpr hpart]
    cases rest with
    | nil => rw [List.takeWhile_nil, List.append_nil]
    | cons b rest =>
      rw [List.takeWhile_cons_of_neg (by simpa using hrest b rfl), List.append_nil]
  obtain ⟨d, part, rfl⟩ := List.exists_cons_of_ne_nil hne
  have hd := hpart d (by simp)
  rw [atoi, atoi, List.cons_append, strtol_cons hd, strtol_cons hd, ← List.cons_append, htake]

/-- A host with its port. An empty port leaves no mark. -/
theorem exec_hostPort {port : Option (List UInt8)} (hhost : IsHost part)
    (hport : ∀ text ∈ port, ∀ b ∈ text, isDigit b = true)
    (hdrop : uristr.drop p = part ++ behind 58 port ++ rest)
    (hrest : ∀ b ∈ rest.head?, isDigit b = false) (hl : l.uri.port = 0) :
    ∃ cs l', machine.exec (act uristr) 522 p l (part ++ behind 58 port) = some (some cs, l') ∧
      5 ≤ region cs ∧ region cs ≤ 8 ∧ 451 ≤ cs ∧
      (endActions cs).foldlM (act uristr (p + (part ++ behind 58 port).length)) l' =
        some { mark := if port = some [] then none
                 else some (p + (part ++ behind 58 port).length)
               uri := { l.uri with host := part, port := (port.map atoi).getD 0 } } := by
  rw [List.append_assoc] at hdrop
  obtain ⟨cs, l', hexec, hlow, hhigh, hfinal, hend, acts, hcolon, hacts⟩ := exec_host hhost hdrop l
  cases port with
  | none =>
    rw [behind, Option.elim_none, List.append_nil]
    refine ⟨cs, l', hexec, hlow, by omega, hfinal, ?_⟩
    rw [hend, if_neg (by simp), Option.map_none, Option.getD_none, ← hl]
  | some port =>
    have hdrop' := drop_add hdrop
    rw [behind, Option.elim_some] at hdrop' ⊢
    rw [Automaton.exec_append hexec, Automaton.exec_cons hcolon, hacts, Option.bind_some]
    cases port with
    | nil =>
      refine ⟨514, _, rfl, by decide, by decide, by decide, ?_⟩
      simp [endActions, act, hl, show atoi [] = 0 from rfl]
    | cons d port =>
      have hdigits := hport _ rfl
      obtain ⟨hfirst, -⟩ := digit_next (hdigits d (by simp))
      have hloop := path_digits fun b hb => hdigits b (List.mem_cons_of_mem _ hb)
      have hnumber : uristr.drop (p + part.length + 1) = (d :: port) ++ rest := by
        rw [← List.drop_drop, hdrop', List.cons_append, List.drop_one, List.tail_cons]
      rw [Automaton.exec_cons hfirst]
      refine ⟨515, _, ranked.exec_eq (by decide) hloop rfl, by decide, by decide, by decide, ?_⟩
      have hlen : p + (part ++ 58 :: d :: port).length =
          p + part.length + 1 + (d :: port).length := by
        rw [List.length_append, List.length_cons]
        omega
      have hatoi : atoi (uristr.drop (p + part.length + 1)) = atoi (d :: port) := by
        rw [hnumber, atoi_append hdigits (by simp) hrest]
      rw [hlen]
      simp [endActions, act, hatoi]

/-! ### Userinfo -/

/-- **Up to a colon** userinfo is read like the name of a host; if it is empty, the next byte is
the one that is marked. -/
theorem exec_name (hpart : IsText isUserChar part) (hcolon : 58 ∉ part) (l : Locals) :
    ∃ cs l', machine.exec (act uristr) 511 p l part = some (some cs, l') ∧ 0 < region cs ∧
      region cs ≤ 2 ∧ userState cs = some .plain ∧
      ∀ acts, (if cs = 511 then .markh :: acts else acts).foldlM (act uristr (p + part.length)) l' =
        acts.foldlM (act uristr (p + part.length)) { l with mark := some p } := by
  obtain ⟨cs, hpath, hcs⟩ := (reads_user.isText_iff (by decide : 1 ≤ region 511) rfl).mp hpart
  cases part with
  | nil =>
    obtain rfl := Option.some.inj hpath
    exact ⟨511, l, rfl, by decide, by decide, hcs, fun acts => rfl⟩
  | cons c part =>
    have hlt := lt_of_path (by decide : IsStart 511) hpath
    have hle := reads_user.region_le hcs (by omega)
    have hkeep : ∀ r b r' acts, (0 < region r ∧ (region r ≤ 2 ∨ 4 < region r)) → b ≠ 58 →
        machine.next r b = some (r', acts) → 0 < region r' ∧ (region r' ≤ 2 ∨ 4 < region r') := by
      rintro r b r' acts ⟨hpos, hr⟩ hb hnext
      obtain ⟨e, he, hbound, rfl, -, hlo, hhi⟩ := exists_edge hpos hnext
      have hrank := he.le
      refine ⟨by omega, ?_⟩
      by_contra hbetween
      obtain ⟨-, hcolon⟩ := hbound.colon (by omega) (by omega)
      exact hb (UInt8.toNat_inj.mp (by change b.toNat = 58; omega))
    obtain ⟨-, hregion⟩ := Automaton.path_keeps hkeep (by decide : 0 < region 511 ∧ _)
      (fun b hb => ne_of_mem_of_not_mem hb hcolon) hpath
    have hone : region 511 = 1 := rfl
    refine ⟨cs, _, exec_part (by decide) (by decide) hpath (by omega), by omega, by omega, hcs,
      fun acts => ?_⟩
    rw [if_neg]
    rintro rfl
    omega

/-- **Behind the first colon** a digit is marked. -/
theorem exec_more (hpart : IsText isUserChar part) (l : Locals) :
    ∃ cs, machine.exec (act uristr) 521 p l part =
        some (some cs,
          if ∃ c ∈ part.head?, isDigit c = true then { l with mark := some p } else l) ∧
      2 < region cs ∧ region cs ≤ 4 ∧ userState cs = some .plain := by
  obtain ⟨cs, hpath, hcs⟩ := (reads_user.isText_iff (by decide : 1 ≤ region 521) rfl).mp hpart
  cases part with
  | nil =>
    obtain rfl := Option.some.inj hpath
    exact ⟨521, by simp, by decide, by decide, rfl⟩
  | cons c part =>
    have hlt := lt_of_path (by decide : IsStart 521) hpath
    have hle := reads_user.region_le hcs (by omega)
    have hthree : region 521 = 3 := rfl
    obtain ⟨r, acts, hnext, hrest⟩ := Automaton.path_cons_eq_some.mp hpath
    have hr := lt_of_path (by decide : IsStart 521)
      (Automaton.path_cons_eq_some.mpr ⟨r, acts, hnext, Automaton.path_nil⟩)
    have hrank := ranked.path_le (by omega) hrest
    have hedge := digit_edge ⟨c.toNat, c.toNat_lt⟩
    rw [UInt8.ofNat_toNat, ← machine_next, hnext, Option.all_some, Bool.or_eq_true] at hedge
    have hacts : acts = if isDigit c then [.markh] else [] := by
      refine of_decide_eq_true (hedge.resolve_left ?_)
      simp only [bne_iff_ne, ne_eq, not_not]
      omega
    refine ⟨cs, ?_, by omega, hle, hcs⟩
    rw [Automaton.exec_cons hnext, hacts]
    by_cases hdigit : isDigit c = true
    · rw [if_pos hdigit, if_pos (by simpa using hdigit)]
      exact ranked.exec_eq (by omega) hrest (by omega)
    · rw [if_neg hdigit, if_neg (by simpa using hdigit)]
      exact ranked.exec_eq (by omega) hrest (by omega)

theorem act_save_userinfo (h : text uristr (some mark) p = some part) (l : Locals) :
    [Action.save_userinfo].foldlM (act uristr p) { l with mark := some mark } =
      some { mark := none, uri := { l.uri with userinfo := part } } := by
  rw [List.foldlM_cons]
  simp only [act, h, Option.map_some, reduceCtorEq, if_false]
  rfl

/-- **Userinfo** with its `@`. What is saved of a host before that is of no concern. -/
theorem exec_user (hpart : IsText isUserChar part) (hdrop : uristr.drop p = part ++ 64 :: rest)
    (l : Locals) : ∃ host, machine.exec (act uristr) 511 p l (part ++ [64]) =
      some (some 522, { mark := none
                        uri := { l.uri with userinfo := savedUser part, host := host } }) := by
  -- the part in front of the first colon is saved as a host, before the sign shows it is none
  by_cases hcolon : 58 ∈ part
  · obtain ⟨name, more, rfl, hname⟩ := List.eq_append_cons_of_mem hcolon
    obtain ⟨hnameText, -, hmoreText⟩ := (isText_append_iff (by decide) (by decide)).mp hpart
    obtain ⟨cs, l', hexec, hpos, hregion, hplain, hacts⟩ := exec_name (p := p) hnameText hname l
    have hedge := (singleEdges hpos).colon hregion hplain
    rw [List.append_assoc, List.cons_append] at hdrop
    have hsave := act_save_host (text_eq hdrop) l
    have hmark : [Action.save_host].foldlM (act uristr (p + name.length))
        { l with mark := some p } =
          some { mark := some p, uri := { l.uri with host := name } } :=
      (Option.bind_fun_some _).trans hsave
    obtain ⟨cs', hmore, hlow, hhigh, hplain'⟩ := exec_more (p := p + name.length + 1) hmoreText
      { mark := some p, uri := { l.uri with host := name } }
    have hat := (singleEdges (show 0 < region cs' by omega)).user hhigh
    rw [if_pos hplain', if_neg] at hat
    · refine ⟨name, ?_⟩
      rw [List.append_assoc, List.cons_append, Automaton.exec_append hexec,
        Automaton.exec_cons hedge, hacts, hmark, Option.bind_some, Automaton.exec_append hmore,
        Automaton.exec_cons hat, savedUser_append hname]
      by_cases hdigit : ∃ c ∈ more.head?, isDigit c = true
      · -- the mark stands at the digit
        have hmore' : uristr.drop (p + name.length + 1) = more ++ 64 :: rest := by
          rw [← List.drop_drop, drop_add hdrop, List.drop_one, List.tail_cons]
        rw [if_pos hdigit, if_pos hdigit, act_save_userinfo (text_eq hmore')]
        rfl
      -- the mark still stands at the start
      · have hpart' : uristr.drop p = (name ++ 58 :: more) ++ 64 :: rest := by
          rw [hdrop, List.append_assoc, List.cons_append]
        have hend : p + name.length + 1 + more.length = p + (name ++ 58 :: more).length := by
          rw [List.length_append, List.length_cons]
          omega
        rw [if_neg hdigit, if_neg hdigit, hend, act_save_userinfo (text_eq hpart')
          { mark := some p, uri := { l.uri with host := name } }]
        rfl
    · rintro rfl
      exact absurd hlow (by decide)
  · obtain ⟨cs, l', hexec, hpos, hregion, hplain, hacts⟩ := exec_name (p := p) hpart hcolon l
    have hat := (singleEdges hpos).user (by omega)
    rw [if_pos hplain] at hat
    refine ⟨l.uri.host, ?_⟩
    rw [Automaton.exec_append hexec, Automaton.exec_cons hat, hacts,
      act_save_userinfo (text_eq hdrop), savedUser_of_not_mem hcolon]
    rfl

/-! ### The whole string -/

theorem scheme_next : (isAlpha c = true → machine.next 451 c = some (508, [.marku])) ∧
    (isSchemeChar c = true → machine.next 508 c = some (508, [])) := by
  have hedge := scheme_edge ⟨c.toNat, c.toNat_lt⟩
  rw [machine_next, machine_next]
  simpa only [UInt8.ofNat_toNat] using hedge

theorem exec_scheme (hpart : IsScheme part) (hdrop : uristr.drop p = part ++ bytes "://" ++ rest)
    (l : Locals) : machine.exec (act uristr) 451 p l (part ++ bytes "://") =
      some (some 511, { mark := none, uri := { l.uri with scheme := part } }) := by
  cases part with
  | nil => exact hpart.elim
  | cons c part =>
    obtain ⟨hc, hpart⟩ := hpart
    have hloop : ∀ q l, machine.exec (act uristr) 508 q l part = some (some 508, l) := by
      clear hdrop
      induction part with
      | nil => exact fun q l => rfl
      | cons d part ih =>
        intro q l
        rw [Automaton.exec_cons (scheme_next.2 (hpart d (by simp)))]
        exact ih (fun b hb => hpart b (List.mem_cons_of_mem _ hb)) (q + 1) l
    have htext := text_eq (by rw [hdrop, List.append_assoc] : uristr.drop p = (c :: part) ++ _)
    have hsave : [Action.save_scheme].foldlM (act uristr (p + 1 + part.length))
        { l with mark := some p } =
          some { mark := none, uri := { l.uri with scheme := c :: part } } := by
      rw [show p + 1 + part.length = p + (c :: part).length by rw [List.length_cons]; omega,
        List.foldlM_cons]
      simp only [act, htext, Option.map_some]
      rfl
    have hcolon : machine.next 508 58 = some (509, [.save_scheme]) := by decide +kernel
    have hslash : machine.next 509 47 = some (510, []) := by decide +kernel
    have hslash' : machine.next 510 47 = some (511, []) := by decide +kernel
    rw [List.cons_append, Automaton.exec_cons (scheme_next.1 hc)]
    change machine.exec (act uristr) 508 (p + 1) { l with mark := some p }
      (part ++ [58, 47, 47]) = _
    rw [Automaton.exec_append (hloop _ _), Automaton.exec_cons hcolon, hsave, Option.bind_some,
      Automaton.exec_cons_silent hslash, Automaton.exec_cons_silent hslash', Automaton.exec_nil]

/-- What comes behind an authority. -/
def IsTail (text : List UInt8) : Prop := ∀ c ∈ text.head?, c = 47 ∨ c = 63 ∨ c = 35

theorem Parts.isTail (P : Parts) : IsTail P.tail := by
  intro c hc
  have hpath := P.isPath
  unfold Parts.tail at hc
  cases hp : P.path with
  | cons b path =>
    rw [hp] at hc hpath
    obtain rfl := Option.some.inj hc
    exact .inl hpath.1
  | nil =>
    rw [hp, List.nil_append] at hc
    cases hq : P.query with
    | some query =>
      rw [hq] at hc
      exact .inr (.inl (Option.some.inj hc).symm)
    | none =>
      rw [hq] at hc
      cases hf : P.fragment with
      | some fragment =>
        rw [hf] at hc
        exact .inr (.inr (Option.some.inj hc).symm)
      | none =>
        rw [hf] at hc
        cases hc

/-- The end of the string, behind an authority. Without a mark it is an exception. -/
theorem finish_tail (P : Parts) (hlow : 5 ≤ region cs) (hhigh : region cs ≤ 8)
    (hfinal : 451 ≤ cs) (hend : (endActions cs).foldlM (act uristr p) l = some l')
    (hmark : l'.mark = some p ∨ l'.mark = none) (hp : p ≤ uristr.length)
    (hdrop : uristr.drop p = P.tail) :
    (machine.exec (act uristr) cs p l P.tail).bind (finish uristr) = l'.mark.map fun _ =>
      some { l'.uri with path := P.path
                         query := P.query.getD l'.uri.query
                         fragment := P.fragment.getD l'.uri.fragment } := by
  obtain ⟨cs₁, l₁, hexec, hfinal₁, hnext, hnext', hclose⟩ :=
    exec_path P.isPath hlow hhigh hfinal hend hmark hdrop
  have hlen := congrArg List.length hdrop
  rw [List.length_drop, Parts.tail, List.length_append] at hlen
  rw [Parts.tail, Automaton.exec_append hexec]
  cases hm : l'.mark with
  | some m =>
    rw [hm, Option.map_some] at hclose
    exact finish_query P.isQuery P.isFragment hfinal₁ hnext hnext' hclose (by omega)
      (drop_add hdrop)
  | none =>
    rw [hm, Option.map_none] at hclose
    -- the path is not saved, whatever comes next
    cases hq : P.query with
    | some query =>
      rw [behind, Option.elim_some, List.cons_append, Automaton.exec_cons hnext', hclose]
      rfl
    | none =>
      rw [hq] at hlen
      cases hf : P.fragment with
      | some fragment =>
        rw [behind, Option.elim_none, List.nil_append, behind, Option.elim_some,
          Automaton.exec_cons hnext, hclose]
        rfl
      | none =>
        rw [hf] at hlen
        simp only [behind, Option.elim_none, List.append_nil, List.length_nil] at hlen ⊢
        rw [Automaton.exec_nil, Option.bind_some, finish]
        simp only [show uristr.length = p + P.path.length by omega, hclose, Option.map_none]

/-- The edges at the end of an authority. -/
theorem exists_ending (hlow : 5 ≤ region cs) (hhigh : region cs ≤ 8)
    (hc : c = 47 ∨ c = 63 ∨ c = 35) : ∃ r acts, 10 ≤ region r ∧
      machine.next cs c = if 451 ≤ cs then some (r, acts) else none := by
  have hends := (singleEdges (by omega)).ends hlow hhigh
  rcases hc with rfl | rfl | rfl
  · exact ⟨513, _, by decide, hends (47, 513, []) (by decide)⟩
  · exact ⟨456, _, by decide, hends (63, 456, [.save_path]) (by decide)⟩
  · exact ⟨453, _, by decide, hends (35, 453, [.save_path]) (by decide)⟩

/-- A state behind an authority has no other twin than itself. -/
theorem eq_of_twin {cs' : ℕ} (hpos : 0 < region cs) (htwin : twin cs = some cs')
    (hcs' : 10 ≤ region cs') : cs = cs' := by
  by_cases hlow : region cs ≤ 4
  · have hle := ((twin_image hpos htwin).1 hlow).2
    omega
  · rw [twin_eq_self (by omega)] at htwin
    exact Option.some.inj htwin

/-- **The states of an authority without `@`** go on like their twins. -/
theorem finish_twin {cs' : ℕ} (hpos : 0 < region cs) (htwin : twin cs = some cs')
    (hlow : 5 ≤ region cs') (hhigh : region cs' ≤ 8) (hfinal : 451 ≤ cs') (hrest : IsTail rest) :
    (machine.exec (act uristr) cs p l rest).bind (finish uristr) =
      (machine.exec (act uristr) cs' p l rest).bind (finish uristr) := by
  cases rest with
  | nil =>
    obtain ⟨-, hiff, heof⟩ := twin_image hpos htwin
    simp only [Automaton.exec_nil, Option.bind_some, finish, heof, hiff]
  | cons c rest =>
    have hc := hrest c rfl
    obtain ⟨r, acts, hr, hnext⟩ := exists_ending hlow hhigh hc
    rw [if_pos hfinal] at hnext
    have hne : c ≠ 64 := by rcases hc with rfl | rfl | rfl <;> decide
    have hedge := twin_edge hpos hne
    rw [htwin, Option.bind_some, hnext, Option.bind_eq_some_iff] at hedge
    obtain ⟨⟨r₀, acts₀⟩, hnext₀, hmap⟩ := hedge
    obtain ⟨r', htarget, heq⟩ := Option.map_eq_some_iff.mp hmap
    obtain ⟨rfl, rfl⟩ := Prod.mk.inj heq
    obtain rfl := eq_of_twin (Nat.lt_of_lt_of_le hpos (ranked.le hpos hnext₀)) htarget hr
    rw [Automaton.exec_cons hnext₀, Automaton.exec_cons hnext]

/-- The edge for a byte of a host or a port. -/
theorem exists_edge_of_mem (hlow : 5 ≤ region cs) {cs' : ℕ}
    (hpath : machine.path cs part = some cs') (hcs' : region cs' ≤ 8) (hc : c ∈ part) :
    ∃ r r' acts, machine.next r c = some (r', acts) ∧ 5 ≤ region r ∧ region r' ≤ 8 := by
  obtain ⟨before, after, rfl⟩ := List.append_of_mem hc
  rw [Automaton.path_append, Option.bind_eq_some_iff] at hpath
  obtain ⟨r, hbefore, hafter⟩ := hpath
  obtain ⟨r', acts, hnext, hrest⟩ := Automaton.path_cons_eq_some.mp hafter
  have hr := ranked.path_le (by omega) hbefore
  have hr' := ranked.le (by omega) hnext
  have hend := ranked.path_le (by omega) hrest
  exact ⟨r, r', acts, hnext, by omega, by omega⟩

/-- A host and a port have no `@`. -/
theorem not_mem_of_path (hlow : 5 ≤ region cs) {cs' : ℕ} (hpath : machine.path cs part = some cs')
    (hcs' : region cs' ≤ 8) : 64 ∉ part := by
  intro hmem
  obtain ⟨r, r', acts, hnext, hr, hr'⟩ := exists_edge_of_mem hlow hpath hcs' hmem
  have hle := ranked.le (by omega) hnext
  obtain ⟨e, -, hbound, -, -, hlo, hhi⟩ := exists_edge (by omega) hnext
  have hbyte : (64 : UInt8).toNat = 64 := rfl
  have honce := hbound.once (by omega) (by omega)
  omega

/-- No byte that ends an authority is in a host or a port. -/
theorem not_ending_of_path (hlow : 5 ≤ region cs) {cs' : ℕ}
    (hpath : machine.path cs part = some cs') (hcs' : region cs' ≤ 8) (hc : c ∈ part) :
    ¬ (c = 47 ∨ c = 63 ∨ c = 35) := by
  intro hend
  obtain ⟨r, r', acts, hnext, hr, hr'⟩ := exists_edge_of_mem hlow hpath hcs' hc
  have hle := ranked.le (by omega) hnext
  obtain ⟨r₀, acts₀, hr₀, hedge⟩ := exists_ending hr (by omega) hend
  rw [hnext] at hedge
  split_ifs at hedge
  obtain ⟨rfl, -⟩ := Prod.mk.inj (Option.some.inj hedge)
  omega

/-- The end of the string, from the start of a host. -/
theorem finish_host (P : Parts) (hport : l.uri.port = 0) (hp : p ≤ uristr.length)
    (hdrop : uristr.drop p = P.host ++ behind 58 P.port ++ P.tail) :
    (machine.exec (act uristr) 522 p l (P.host ++ behind 58 P.port ++ P.tail)).bind
        (finish uristr) =
      if P.port = some [] then none
      else some (some { l.uri with host := P.host
                                   port := (P.port.map atoi).getD 0
                                   path := P.path
                                   query := P.query.getD l.uri.query
                                   fragment := P.fragment.getD l.uri.fragment }) := by
  have hdigit : ∀ b ∈ P.tail.head?, isDigit b = false := by
    intro b hb
    rcases P.isTail b hb with rfl | rfl | rfl <;> decide
  obtain ⟨cs, l', hexec, hlow, hhigh, hfinal, hend⟩ :=
    exec_hostPort P.isHost P.isPort hdrop hdigit hport
  have hlen := congrArg List.length hdrop
  rw [List.length_drop, List.length_append] at hlen
  rw [Automaton.exec_append hexec, finish_tail P hlow hhigh hfinal hend ?_ (by omega)
    (drop_add hdrop)]
  · by_cases hempty : P.port = some []
    · rw [if_pos hempty, if_pos hempty, Option.map_none]
    · rw [if_neg hempty, if_neg hempty, Option.map_some]
  · by_cases hempty : P.port = some []
    · rw [if_pos hempty]
      exact .inr rfl
    · rw [if_neg hempty]
      exact .inl rfl

/-- **A host without userinfo** is read like one behind `@`. -/
theorem finish_twins (P : Parts) (hport : l.uri.port = 0)
    (hdrop : uristr.drop p = P.host ++ behind 58 P.port ++ P.tail) :
    (machine.exec (act uristr) 511 p l (P.host ++ behind 58 P.port ++ P.tail)).bind
        (finish uristr) =
      (machine.exec (act uristr) 522 p l (P.host ++ behind 58 P.port ++ P.tail)).bind
        (finish uristr) := by
  have hdigit : ∀ b ∈ P.tail.head?, isDigit b = false := by
    intro b hb
    rcases P.isTail b hb with rfl | rfl | rfl <;> decide
  obtain ⟨cs, l', hexec, hlow, hhigh, hfinal, -⟩ :=
    exec_hostPort P.isHost P.isPort hdrop hdigit hport
  have hat := not_mem_of_path (by decide) (Automaton.path_of_exec hexec) hhigh
  have hkeep : ∀ s b s' acts, 0 < region s → machine.next s b = some (s', acts) → 0 < region s' :=
    fun s b s' acts hs hnext => Nat.lt_of_lt_of_le hs (ranked.le hs hnext)
  obtain ⟨cs', htwin, hexec'⟩ := (Automaton.exec_map_iff hkeep (fun s b hs hb => twin_edge hs hb)
    (by decide : 0 < region 511) fun b hb => ne_of_mem_of_not_mem hb hat).mp ⟨522, rfl, hexec⟩
  have hpos := ranked.path_le (by decide) (Automaton.path_of_exec hexec')
  rw [Automaton.exec_append hexec, Automaton.exec_append hexec',
    finish_twin (Nat.lt_of_lt_of_le (by decide) hpos) htwin hlow hhigh hfinal P.isTail]

/-- **What `Create` makes of a string with the parts**: the URI, or an exception if the port is
there and empty. -/
theorem create_text (P : Parts) :
    create P.text = if P.port = some [] then none else some (some P.uri) := by
  have hscheme : P.text.drop 0 = P.scheme ++ bytes "://" ++ (P.authority ++ P.tail) := rfl
  have hlen : P.text.length =
      0 + (P.scheme ++ bytes "://").length + (P.authority ++ P.tail).length := by
    rw [Nat.zero_add, ← List.length_append]
    rfl
  have hdrop := drop_add hscheme
  rw [create_eq]
  change (machine.exec (act P.text) 451 0 {}
    (P.scheme ++ bytes "://" ++ (P.authority ++ P.tail))).bind _ = _
  rw [Automaton.exec_append (exec_scheme P.isScheme hscheme {})]
  revert hdrop hlen
  generalize 0 + (P.scheme ++ bytes "://").length = p
  intro hlen hdrop
  cases huser : P.user with
  | none =>
    have hauthority : P.authority ++ P.tail = P.host ++ behind 58 P.port ++ P.tail := by
      rw [Parts.authority, huser, ahead]
      rfl
    rw [hauthority] at hdrop hlen ⊢
    rw [finish_twins P rfl hdrop, finish_host P rfl (by omega) hdrop]
    simp only [Parts.uri, huser]
    rfl
  | some user =>
    have hauthority : P.authority ++ P.tail =
        user ++ [64] ++ (P.host ++ behind 58 P.port ++ P.tail) := by
      rw [Parts.authority, huser, ahead]
      simp
    rw [hauthority] at hdrop hlen ⊢
    have hat : P.text.drop p = user ++ 64 :: (P.host ++ behind 58 P.port ++ P.tail) := by
      rw [hdrop, List.append_assoc]
      rfl
    obtain ⟨host, hexec⟩ := exec_user (P.isUser user huser) hat
      { mark := none, uri := { scheme := P.scheme } }
    rw [List.length_append] at hlen
    rw [Automaton.exec_append hexec, finish_host P rfl (by omega) (drop_add hdrop)]
    simp only [Parts.uri, huser]
    rfl

end Runs

end Uri

end Sylar
