import Sylar.Uri.Grammar

/-!
# Printing and reading URIs

A URI that `Create` made of a string is printed and read again. What is printed has parts again:
the default port and the parts that are empty are left out, and the path is there.

What is lost in that is lost by the marks of `Create`. Userinfo is printed as it was saved, and
saved the second time from the digit behind its first colon on, if there is one: so it stays the
same exactly if the first time not both colons in a row stood in front of a digit. And the number
of a port that does not fit an `int` may come out negative; the sign that is printed then is no
digit, and the string is not accepted.

The conditions are stated about the string. Its authority ends at the first of three bytes, its
userinfo at the `@`, and the port starts behind the last colon in front of digits: the colons of an
address in brackets lead to no state in which a host may end before the `]`.

## Main definitions

* `Survives`: printing and reading again keeps a URI
* `authorityOf`, `UserStable`, `PortStable`: the conditions on a string
* `Parts.reprint`: the parts of what is printed

## Main results

* `Parts.create_toString`: what is read of a printed URI
* `Parts.not_accepted`: a negative port is not
* `create_toString_iff`: when a URI survives
-/

namespace Sylar

open Foundation

namespace Uri

/-- **A URI survives printing**: what is printed is accepted, as a URI with the same parts. -/
def Survives (u : Uri) : Prop :=
  ∃ v, create u.toString = some (some v) ∧ v.scheme = u.scheme ∧ v.userinfo = u.userinfo ∧
    v.host = u.host ∧ v.getPort = u.getPort ∧ v.getPath = u.getPath ∧ v.query = u.query ∧
    v.fragment = u.fragment

/-! ## The authority in a string -/

/-- The authority behind `://`. -/
def authorityOf (rest : List UInt8) : List UInt8 :=
  rest.takeWhile fun c => !(c = 47 || c = 63 || c = 35)

/-- Not both the first colon of userinfo and the next one stand in front of a digit. -/
def UserStable (authority : List UInt8) : Prop :=
  ∀ user hostPort, authority = user ++ 64 :: hostPort →
    ¬ (Restarts user ∧ Restarts (afterColon user))

/-- The digits of the port are not read as a negative number. -/
def PortStable (authority : List UInt8) : Prop :=
  ∀ front port, authority = front ++ 58 :: port → (∀ c ∈ port, isDigit c = true) → 0 ≤ atoi port

section Authority

variable {part : List UInt8} {cs : ℕ} {c : UInt8} (P : Parts)

theorem Parts.exists_path_hostPort :
    ∃ cs, machine.path 522 (P.host ++ behind 58 P.port) = some cs ∧ 5 ≤ region cs ∧
      region cs ≤ 8 ∧ 451 ≤ cs := by
  have hdrop : (P.host ++ behind 58 P.port).drop 0 = P.host ++ behind 58 P.port ++ [] := by simp
  obtain ⟨cs, l', hexec, hlow, hhigh, hfinal, -⟩ :=
    exec_hostPort P.isHost P.isPort hdrop (by simp) (rfl : ({} : Locals).uri.port = 0)
  exact ⟨cs, Automaton.path_of_exec hexec, hlow, hhigh, hfinal⟩

theorem Parts.not_mem_hostPort : 64 ∉ P.host ++ behind 58 P.port := by
  obtain ⟨cs, hpath, -, hhigh, -⟩ := P.exists_path_hostPort
  exact not_mem_of_path (by decide) hpath hhigh

theorem Parts.not_mem_user {user : List UInt8} (huser : user ∈ P.user) : 64 ∉ user := fun hmem =>
  absurd (of_mem_isText (P.isUser user huser) hmem (by decide) (by decide)) (by decide)

theorem not_mem_ahead {user : Option (List UInt8)} (huser : ∀ u ∈ user, IsText isUserChar u)
    (hc : c ∈ ahead 64 user) : ¬ (c = 47 ∨ c = 63 ∨ c = 35) := by
  intro hend
  cases user with
  | none => cases hc
  | some user =>
    rw [ahead, Option.elim_some, List.mem_append, List.mem_singleton] at hc
    rcases hc with hc | rfl
    · have hok : isXdigit c = false → c ≠ 37 → isUserChar c = true :=
        of_mem_isText (huser user rfl) hc
      rcases hend with rfl | rfl | rfl <;> exact absurd (hok (by decide) (by decide)) (by decide)
    · revert hend
      decide

/-- **An authority ends** at the first of three bytes. -/
theorem authorityOf_append {authority tail : List UInt8}
    (hinside : ∀ c ∈ authority, ¬ (c = 47 ∨ c = 63 ∨ c = 35)) (htail : IsTail tail) :
    authorityOf (authority ++ tail) = authority := by
  refine takeWhile_append_stop (fun c hc => ?_) fun c hc => ?_
  · simpa [and_assoc] using hinside c hc
  · simpa [or_assoc] using htail c hc

/-- The authority of a string is that of its parts. -/
theorem Parts.authorityOf_eq : authorityOf (P.authority ++ P.tail) = P.authority := by
  refine authorityOf_append (fun c hc => ?_) P.isTail
  rcases List.mem_append.mp hc with hc | hc
  · exact not_mem_ahead P.isUser hc
  · obtain ⟨cs, hpath, -, hhigh, -⟩ := P.exists_path_hostPort
    exact not_ending_of_path (by decide) hpath hhigh hc

theorem Parts.userStable_iff : UserStable P.authority ↔
    ∀ user ∈ P.user, ¬ (Restarts user ∧ Restarts (afterColon user)) := by
  constructor
  · intro h user huser
    refine h user (P.host ++ behind 58 P.port) ?_
    rw [Parts.authority, huser, ahead, Option.elim_some, List.append_assoc]
    rfl
  · intro h user hostPort hsplit
    cases huser : P.user with
    | none =>
      rw [Parts.authority, huser, ahead, Option.elim_none, List.nil_append] at hsplit
      have hnot := P.not_mem_hostPort
      rw [hsplit] at hnot
      exact absurd (by simp) hnot
    | some text =>
      rw [Parts.authority, huser, ahead, Option.elim_some, List.append_assoc, List.cons_append,
        List.nil_append, List.append_cons_inj_of_notMem (P.not_mem_user huser) P.not_mem_hostPort]
        at hsplit
      obtain ⟨rfl, -, -⟩ := hsplit
      exact h text huser

/-- **The last colon** of an authority, in front of digits, is that of the port. -/
theorem Parts.port_of_split {front digits : List UInt8}
    (hsplit : P.host ++ behind 58 P.port = front ++ 58 :: digits)
    (hdigits : ∀ b ∈ digits, isDigit b = true) : P.port = some digits := by
  obtain ⟨ch, hpath, -, hhigh, hfinal⟩ := P.exists_path_hostPort
  have hwhole := hpath
  rw [hsplit, Automaton.path_append, Option.bind_eq_some_iff] at hpath
  obtain ⟨r, hfront, hcolon⟩ := hpath
  obtain ⟨r', acts, hnext, hrest⟩ := Automaton.path_cons_eq_some.mp hcolon
  have hr : 5 ≤ region r := ranked.path_le (s := 522) (by decide) hfront
  have hr' := ranked.le (by omega) hnext
  have hle := ranked.path_le (by omega) hrest
  have hlow : region r ≤ 6 := by
    by_contra hhigh'
    rw [machine_next, (singleEdges (by omega)).noColon (by omega) (by omega)] at hnext
    cases hnext
  have hport : 7 ≤ region r' := by
    by_contra hin
    -- inside brackets digits lead to no state in which a host may end
    have hkeep : ∀ s b s' acts, 260 ≤ s ∧ s ≤ 450 → isDigit b = true →
        machine.next s b = some (s', acts) → 260 ≤ s' ∧ s' ≤ 450 := by
      intro s b s' acts hs hb hnext
      have hregion := bracket_region hs.1 hs.2
      refine ((bracket_edge (.inr hregion) hnext).2 hs).resolve_right ?_
      have hrange := isDigit_iff.mp hb
      omega
    have hsix : region r' = 6 := by
      by_contra hne
      have hstart : IsStart r := by
        rw [IsStart, show region r = 5 by omega]
        decide
      have hlt := lt_of_path hstart
        (Automaton.path_cons_eq_some.mpr ⟨r', acts, hnext, Automaton.path_nil⟩)
      omega
    have hlast := Automaton.path_keeps hkeep ((bracket_edge (by omega) hnext).1 rfl hsix) hdigits
      hrest
    omega
  cases hp : P.port with
  | none =>
    obtain ⟨cs, hhost, hhostRegion, -⟩ := P.isHost
    rw [hp, behind, Option.elim_none, List.append_nil] at hwhole
    rw [hhost] at hwhole
    obtain rfl := Option.some.inj hwhole
    omega
  | some port =>
    rw [hp, behind, Option.elim_some] at hsplit
    have hcolon : ∀ text : List UInt8, (∀ b ∈ text, isDigit b = true) → 58 ∉ text :=
      fun text h hm => absurd (h 58 hm) (by decide)
    exact congrArg some (eq_of_append_cons (hcolon port (P.isPort port hp)) (hcolon digits hdigits)
      hsplit).2

theorem Parts.portStable_iff : PortStable P.authority ↔ 0 ≤ P.uri.port := by
  constructor
  · intro h
    cases hport : P.port with
    | none =>
      simp only [Parts.uri, hport, Option.map_none, Option.getD_none]
      exact Int.le_refl 0
    | some port =>
      have hsplit : P.authority = ahead 64 P.user ++ P.host ++ 58 :: port := by
        rw [Parts.authority, hport, behind, Option.elim_some, List.append_assoc]
      simpa only [Parts.uri, hport, Option.map_some, Option.getD_some] using
        h _ port hsplit (P.isPort port hport)
  · intro h front digits hsplit hdigits
    have hport : P.port = some digits := by
      cases huser : P.user with
      | none =>
        rw [Parts.authority, huser, ahead, Option.elim_none, List.nil_append] at hsplit
        exact P.port_of_split hsplit hdigits
      | some user =>
        rw [Parts.authority, huser, ahead, Option.elim_some] at hsplit
        -- the digits and their colon are behind the `@`
        have hat : 64 ∉ (58 : UInt8) :: digits := by
          intro hmem
          rcases List.mem_cons.mp hmem with hmem | hmem
          · exact absurd hmem (by decide)
          · exact absurd (hdigits 64 hmem) (by decide)
        rcases List.append_eq_append_iff.mp hsplit with ⟨between, -, hb⟩ | ⟨between, hb, hrest⟩
        · exact P.port_of_split hb hdigits
        · cases between with
          | nil =>
            have hempty : P.host ++ behind 58 P.port = [] ++ 58 :: digits := hrest.symm
            exact P.port_of_split hempty hdigits
          | cons c between =>
            have hlast : (c :: between).getLast? = some 64 := by
              rw [← List.getLast?_append_cons front c between, ← hb, List.getLast?_concat]
            refine absurd ?_ hat
            rw [hrest]
            exact List.mem_append_left _ (List.mem_of_getLast? hlast)
    simpa only [Parts.uri, hport, Option.map_some, Option.getD_some] using h

end Authority

/-! ## Printing -/

/-- A part that is printed if it is not empty. -/
def given (part : List UInt8) : Option (List UInt8) := if part = [] then none else some part

theorem getD_given (part : List UInt8) : (given part).getD [] = part := by
  unfold given
  split_ifs with h
  · exact h.symm
  · rfl

theorem behind_given (c : UInt8) (part : List UInt8) :
    behind c (given part) = (if part = [] then [] else [c]) ++ part := by
  unfold given
  split_ifs with h
  · rw [h]
    rfl
  · rfl

theorem ahead_given (c : UInt8) (part : List UInt8) :
    ahead c (given part) = part ++ if part = [] then [] else [c] := by
  unfold given
  split_ifs with h
  · rw [h]
    rfl
  · rfl

/-- The port that is printed. -/
def printedPort (uri : Uri) : Option (List UInt8) :=
  if uri.isDefaultPort then none else some (bytes (ToString.toString uri.port))

/-- **The text of a URI** in its parts. -/
theorem toString_eq (uri : Uri) : uri.toString = uri.scheme ++ bytes "://" ++
    (ahead 64 (given uri.userinfo) ++ (uri.host ++ behind 58 uri.printedPort) ++
      (uri.getPath ++ (behind 63 (given uri.query) ++ behind 35 (given uri.fragment)))) := by
  have hport : behind 58 uri.printedPort =
      if uri.isDefaultPort then [] else bytes ":" ++ bytes (ToString.toString uri.port) := by
    unfold printedPort
    split_ifs <;> rfl
  rw [toString, ahead_given, behind_given, behind_given, hport]
  simp only [List.append_assoc]
  rfl

/-! ### What is saved of userinfo -/

section SavedUser

variable {user : List UInt8}

theorem isText_savedUser (h : IsText isUserChar user) : IsText isUserChar (savedUser user) := by
  by_cases hcolon : 58 ∈ user
  · obtain ⟨name, rest, rfl, hname⟩ := List.eq_append_cons_of_mem hcolon
    rw [savedUser_append hname]
    split_ifs
    · exact ((isText_append_iff (by decide) (by decide)).mp h).2.2
    · exact h
  · rwa [savedUser_of_not_mem hcolon]

theorem savedUser_eq_iff : savedUser user = user ↔ ¬ Restarts user := by
  refine ⟨fun h hrestarts => ?_, fun h => if_neg h⟩
  have hcolon : 58 ∈ user := by
    by_contra hnot
    exact not_restarts_of_not_mem hnot hrestarts
  obtain ⟨name, rest, rfl, hname⟩ := List.eq_append_cons_of_mem hcolon
  rw [savedUser, if_pos hrestarts, afterColon_append hname] at h
  have hlen := congrArg List.length h
  rw [List.length_append, List.length_cons] at hlen
  omega

/-- **Userinfo is saved as it is the second time** exactly if not both its first colon and the next
one stand in front of a digit. -/
theorem savedUser_savedUser_iff :
    savedUser (savedUser user) = savedUser user ↔
      ¬ (Restarts user ∧ Restarts (afterColon user)) := by
  rw [savedUser_eq_iff]
  by_cases h : Restarts user
  · rw [savedUser, if_pos h]
    simp [h]
  · rw [savedUser, if_neg h]
    simp [h]

end SavedUser

/-! ### Ports -/

section Ports

variable {uri : Uri} {n : ℕ} (P : Parts)

theorem atoi_lt (text : List UInt8) : atoi text < 2 ^ 31 := by
  have h := Int.bmod_lt (x := strtol text) (m := 2 ^ 32) (by decide)
  rw [atoi]
  omega

theorem Parts.port_lt : P.uri.port < 2 ^ 31 := by
  cases hport : P.port with
  | none => simp only [Parts.uri, hport, Option.map_none, Option.getD_none]; decide
  | some port => simpa only [Parts.uri, hport, Option.map_some, Option.getD_some] using atoi_lt port

/-- **A printed port** is read back. -/
theorem atoi_toString (hn : n < 2 ^ 31) : atoi (bytes (ToString.toString n)) = n := by
  have hdigits := isDigit_toString n
  obtain ⟨d, text, htext⟩ := List.exists_cons_of_ne_nil (bytes_toString_ne_nil n)
  have hd : isDigit d = true := by
    rw [htext] at hdigits
    exact hdigits d (List.mem_cons_self ..)
  have hnumber := numeral_toString n
  have htake := List.takeWhile_eq_self_iff.mpr hdigits
  rw [htext] at hnumber htake ⊢
  rw [atoi, strtol_cons hd, htake, hnumber, Int.min_eq_right (by omega)]
  exact Int.bmod_eq_of_le (by omega) (by omega)

/-- The port that is printed is a number, which goes back to the same port. -/
theorem printedPort_of_nonneg (h : 0 ≤ uri.port) (hlt : uri.port < 2 ^ 31) :
    (∀ text ∈ uri.printedPort, text ≠ [] ∧ ∀ c ∈ text, isDigit c = true) ∧
      ∀ uri' : Uri, uri'.scheme = uri.scheme →
        uri'.port = (uri.printedPort.map atoi).getD 0 → uri'.getPort = uri.getPort := by
  obtain ⟨n, hn⟩ := Int.eq_ofNat_of_zero_le h
  have hprinted : ToString.toString uri.port = ToString.toString n := by
    rw [hn]
    rfl
  constructor
  · intro text htext
    rw [printedPort, hprinted] at htext
    split_ifs at htext
    · cases htext
    · obtain rfl := Option.some.inj htext
      exact ⟨bytes_toString_ne_nil n, isDigit_toString n⟩
  · intro uri' hscheme hport
    rw [printedPort, hprinted] at hport
    unfold getPort
    rw [hscheme]
    by_cases hdefault : uri.isDefaultPort = true
    · rw [if_pos hdefault, Option.map_none, Option.getD_none] at hport
      rw [hport, if_neg (by simp)]
      unfold isDefaultPort at hdefault
      split_ifs at hdefault ⊢ with hzero hhttp hhttps
      all_goals simp_all
    · rw [if_neg hdefault, Option.map_some, Option.getD_some, atoi_toString (by omega),
        ← hn] at hport
      rw [hport]

end Ports

/-! ## Printing and reading -/

section RoundTrip

variable (P : Parts)

theorem Parts.mem_given_user {text : List UInt8} (h : text ∈ given P.uri.userinfo) :
    IsText isUserChar text := by
  obtain rfl : P.uri.userinfo = text := by
    rw [given] at h
    split_ifs at h
    · cases h
    · exact Option.some.inj h
  cases huser : P.user with
  | none =>
    simp only [Parts.uri, huser, Option.getD_none]
    exact isText_nil
  | some user =>
    simp only [Parts.uri, huser, Option.getD_some]
    exact isText_savedUser (P.isUser user huser)

theorem mem_given_getD {ok : UInt8 → Bool} {part : Option (List UInt8)} {text : List UInt8}
    (hpart : ∀ t ∈ part, IsText ok t) (h : text ∈ given (part.getD [])) : IsText ok text := by
  rw [given] at h
  split_ifs at h
  · cases h
  · obtain rfl := Option.some.inj h
    cases part with
    | none => exact isText_nil
    | some t => exact hpart t rfl

/-- The parts of the text that a URI is printed as. -/
def Parts.reprint (h : 0 ≤ P.uri.port) : Parts where
  scheme := P.scheme
  user := given P.uri.userinfo
  host := P.host
  port := P.uri.printedPort
  path := P.uri.getPath
  query := given P.uri.query
  fragment := given P.uri.fragment
  isScheme := P.isScheme
  isUser := fun _ => P.mem_given_user
  isHost := P.isHost
  isPort := fun text htext => ((printedPort_of_nonneg h P.port_lt).1 text htext).2
  isPath := by
    unfold getPath
    split_ifs
    · exact ⟨rfl, isText_nil⟩
    · exact P.isPath
  isQuery := fun _ => mem_given_getD P.isQuery
  isFragment := fun _ => mem_given_getD P.isFragment

theorem Parts.reprint_text (h : 0 ≤ P.uri.port) : (P.reprint h).text = P.uri.toString :=
  (toString_eq P.uri).symm

/-- **What is read of a printed URI.** -/
theorem Parts.create_toString (h : 0 ≤ P.uri.port) :
    create P.uri.toString = some (some (P.reprint h).uri) := by
  rw [← P.reprint_text h, create_text, if_neg]
  intro hempty
  exact ((printedPort_of_nonneg h P.port_lt).1 [] hempty).1 rfl

theorem Parts.isTail_getPath (more : List UInt8) : IsTail (P.uri.getPath ++ more) := by
  intro c hc
  have hpath := P.isPath
  unfold getPath at hc
  split_ifs at hc with hempty
  · exact .inl (Option.some.inj hc).symm
  · obtain ⟨b, path, hcons⟩ := List.exists_cons_of_ne_nil hempty
    rw [hcons] at hc
    rw [show P.path = b :: path from hcons] at hpath
    exact .inl ((Option.some.inj hc).symm.trans hpath.1)

theorem bytes_negSucc (n : ℕ) :
    bytes (ToString.toString (Int.negSucc n)) = 45 :: bytes (ToString.toString (n + 1)) := by
  rw [show ToString.toString (Int.negSucc n) = "-" ++ ToString.toString (n + 1) from rfl, bytes,
    String.toList_append, List.map_append]
  rfl

/-- **A negative port** is printed with a sign, which is not accepted. -/
theorem Parts.not_accepted (h : P.uri.port < 0) (v : Uri) :
    create P.uri.toString ≠ some (some v) := by
  intro haccept
  obtain ⟨n, hn⟩ := Int.eq_negSucc_of_lt_zero h
  have hdefault : P.uri.isDefaultPort = false := by
    unfold isDefaultPort
    split_ifs
    · omega
    · exact decide_eq_false (by omega)
    · exact decide_eq_false (by omega)
    · rfl
  have hprinted : P.uri.printedPort = some (45 :: bytes (ToString.toString (n + 1))) := by
    rw [printedPort, hdefault, if_neg Bool.false_ne_true, hn, bytes_negSucc]
  rw [toString_eq, hprinted] at haccept
  obtain ⟨Q, hscheme, htext⟩ := exists_parts P.isScheme haccept
  rw [Parts.text, hscheme] at htext
  have hauthority := congrArg authorityOf (List.append_cancel_left htext)
  obtain ⟨cs, hhost, hregion, hfinal⟩ : IsHost P.uri.host := P.isHost
  have hlow : 5 ≤ region cs := ranked.path_le (s := 522) (by decide) hhost
  have hchars : ∀ c ∈ behind 58 (some (45 :: bytes (ToString.toString (n + 1)))),
      isUserChar c = true := by
    intro c hc
    rcases List.mem_cons.mp hc with rfl | hc
    · rfl
    · rcases List.mem_cons.mp hc with rfl | hc
      · rfl
      · simp [isUserChar, isNameChar, isDigit_toString (n + 1) c hc]
  rw [Q.authorityOf_eq, authorityOf_append ?_ (P.isTail_getPath _)] at hauthority
  · have hhostPort := (ahead_append_inj Q.not_mem_hostPort ?_ hauthority).2
    · -- behind the colon the machine stops at the sign
      obtain ⟨ch, hpath, -⟩ := Q.exists_path_hostPort
      rw [hhostPort, Automaton.path_append, hhost, Option.bind_some] at hpath
      obtain ⟨r, acts, hnext, hrest⟩ := Automaton.path_cons_eq_some.mp hpath
      rw [machine_next, (singleEdges (by omega)).port (by omega) hfinal] at hnext
      obtain ⟨rfl, -⟩ := Prod.mk.inj (Option.some.inj hnext)
      obtain ⟨r', acts', hsign, -⟩ := Automaton.path_cons_eq_some.mp hrest
      have hnone : machine.next 514 45 = none := by decide +kernel
      rw [hnone] at hsign
      cases hsign
    · intro hmem
      rcases List.mem_append.mp hmem with hmem | hmem
      · exact not_mem_of_path (by decide) hhost (by omega) hmem
      · exact absurd (hchars 64 hmem) (by decide)
  · intro c hc hend
    rcases List.mem_append.mp hc with hc | hc
    · exact not_mem_ahead (fun _ => P.mem_given_user) hc hend
    · rcases List.mem_append.mp hc with hc | hc
      · exact not_ending_of_path (by decide) hhost (by omega) hc hend
      · rcases hend with rfl | rfl | rfl <;> exact absurd (hchars _ hc) (by decide)

/-- **Printing and reading again** keeps a URI exactly if the port is not negative and userinfo is
saved as it is. -/
theorem Parts.survives_iff :
    P.uri.Survives ↔ savedUser P.uri.userinfo = P.uri.userinfo ∧ 0 ≤ P.uri.port := by
  by_cases hport : 0 ≤ P.uri.port
  · have hcreate := P.create_toString hport
    have huserinfo : (P.reprint hport).uri.userinfo = savedUser P.uri.userinfo :=
      congrArg savedUser (getD_given _)
    rw [Survives, hcreate]
    constructor
    · rintro ⟨v, hv, -, huser, -⟩
      obtain rfl := Option.some.inj (Option.some.inj hv)
      exact ⟨huserinfo.symm.trans huser, hport⟩
    · rintro ⟨hsaved, -⟩
      refine ⟨_, rfl, rfl, huserinfo.trans hsaved, rfl, ?_, ?_, getD_given _, getD_given _⟩
      · exact (printedPort_of_nonneg hport P.port_lt).2 _ rfl rfl
      · change (if P.uri.getPath = [] then bytes "/" else P.uri.getPath) = P.uri.getPath
        rw [if_neg]
        unfold getPath
        split_ifs with hempty
        · decide
        · exact hempty
  · constructor
    · rintro ⟨v, hv, -⟩
      exact absurd hv (P.not_accepted (by omega) v)
    · rintro ⟨-, hnonneg⟩
      exact absurd hnonneg hport

/-- **URIs survive printing**, for every string with a scheme and an authority that is accepted,
exactly if not both the first colon of userinfo and the next one stand in front of a digit, and the
digits of the port are not read as a negative number. -/
theorem create_toString_iff {scheme rest : List UInt8} {u : Uri} (hscheme : IsScheme scheme)
    (h : create (scheme ++ bytes "://" ++ rest) = some (some u)) :
    u.Survives ↔ UserStable (authorityOf rest) ∧ PortStable (authorityOf rest) := by
  obtain ⟨P, rfl, htext⟩ := exists_parts hscheme h
  have hrest : P.authority ++ P.tail = rest := List.append_cancel_left htext
  rw [← htext, create_text] at h
  split_ifs at h with hempty
  obtain rfl := Option.some.inj (Option.some.inj h)
  rw [P.survives_iff, ← hrest, P.authorityOf_eq, P.userStable_iff, P.portStable_iff]
  refine and_congr_left fun _ => ?_
  cases huser : P.user with
  | none =>
    simp only [Parts.uri, huser, Option.getD_none]
    simp [show savedUser [] = [] from rfl]
  | some user =>
    simp only [Parts.uri, huser, Option.getD_some, Option.mem_some_iff, forall_eq']
    exact savedUser_savedUser_iff

/-- A URI with userinfo and a port that is printed. -/
theorem create_toString_iff_port :
    Survives { scheme := bytes "ftp", userinfo := bytes "a:b", host := bytes "h", path := bytes "/p"
               port := 81 } ↔
      UserStable (authorityOf (bytes "a:b@h:81/p")) ∧
        PortStable (authorityOf (bytes "a:b@h:81/p")) := by
  have hscheme : IsScheme (bytes "ftp") := by
    change isAlpha 102 = true ∧ ∀ b ∈ [116, 112], isSchemeChar b = true
    decide +kernel
  apply create_toString_iff hscheme
  decide +kernel

/-- Of the userinfo `a:1:2` the text `1:2` is saved, and of that the text `2`. -/
theorem userinfo_lost :
    ∃ u, create (bytes "http://a:1:2@host/") = some (some u) ∧ ¬ u.Survives := by
  refine ⟨{ scheme := bytes "http", userinfo := bytes "1:2", host := bytes "host"
            path := bytes "/" }, by decide +kernel, ?_⟩
  rintro ⟨v, hv, -, huser, -⟩
  have hread : create (toString { scheme := bytes "http", userinfo := bytes "1:2"
                                  host := bytes "host", path := bytes "/" }) =
      some (some { scheme := bytes "http", userinfo := bytes "2", host := bytes "host"
                   path := bytes "/" }) := by
    decide +kernel
  rw [hread] at hv
  obtain rfl := Option.some.inj (Option.some.inj hv)
  exact absurd huser (by decide)

end RoundTrip

end Uri

end Sylar
