import Sylar.Uri.Parts

/-!
# What `Create` accepts

A string with a scheme and `://` in front that `Create` accepts has parts. The string is cut where
its path through the states leaves a region: the first edge out of a region is at the separator
behind a part, and what is in front of it is a text of the region.

## Main results

* `exists_authority`, `exists_user`, `exists_hostPort`: an authority is cut into its parts
* `exists_tail`: what comes behind it is
* `exists_parts`: what is accepted has parts
-/

namespace Sylar

open Foundation

namespace Uri

section Accepted

variable {text : List UInt8} {cs cs' : ℕ} {c : UInt8}

theorem exists_fragment (hpath : machine.path 453 text = some cs) (hfinal : 451 ≤ cs) :
    IsText isQueryChar text := by
  have hlow : 13 ≤ region cs := ranked.path_le (s := 453) (by decide) hpath
  have hhigh := (region_values (show cs < 561 from lt_of_region (by omega))).2
  exact (reads_fragment.isText_iff (by decide : 13 ≤ region 453) rfl).mpr
    ⟨cs, hpath, (plain_of_final (lt_of_region (by omega)) hfinal).2.2 (by omega)⟩

theorem exists_query (hpath : machine.path 456 text = some cs) (hfinal : 451 ≤ cs) :
    ∃ query fragment, text = query ++ behind 35 fragment ∧ IsText isQueryChar query ∧
      ∀ f ∈ fragment, IsText isQueryChar f := by
  have hstart : region 456 = 11 := rfl
  by_cases hin : region cs ≤ 12
  · have hlow := ranked.path_le (by decide) hpath
    refine ⟨text, none, by rw [behind, Option.elim_none, List.append_nil], ?_, by simp⟩
    exact (reads_query.isText_iff (by decide : 11 ≤ region 456) rfl).mpr
      ⟨cs, hpath, (plain_of_final (lt_of_region (by omega)) hfinal).2.1 (by omega)⟩
  · -- the first byte of the fragment's separator
    obtain ⟨query, c, fragment, r, r', acts, rfl, hquery, hr, hnext, hr', hfragment⟩ :=
      Automaton.exists_crossing (P := fun cs => region cs ≤ 12) (by decide) hin hpath
    have hlow := ranked.path_le (by decide) hquery
    obtain ⟨e, -, hbound, rfl, -, hlo, hhi⟩ := exists_edge (by omega) hnext
    have hbyte := (hbound.tail (by omega) hr).2 (by omega)
    obtain rfl : c = 35 := UInt8.toNat_inj.mp (by change c.toNat = 35; omega)
    have hedge := (singleEdges (show 0 < region r by omega)).query (by omega)
    rw [← machine_next, hnext] at hedge
    have hplain : (r = 456 ∨ r = 457) ∧ e.target = 453 := by
      split_ifs at hedge with h₁ h₂
      · exact ⟨.inl h₁, congrArg Prod.fst (Option.some.inj hedge)⟩
      · exact ⟨.inr h₂, congrArg Prod.fst (Option.some.inj hedge)⟩
    rw [hplain.2] at hfragment
    refine ⟨query, some fragment, rfl, ?_, ?_⟩
    · exact (reads_query.isText_iff (by decide : 11 ≤ region 456) rfl).mpr
        ⟨r, hquery, by rcases hplain.1 with rfl | rfl <;> rfl⟩
    · rintro f hf
      obtain rfl := Option.some.inj hf
      exact exists_fragment hfragment hfinal

theorem exists_path (hpath : machine.path 513 text = some cs) (hfinal : 451 ≤ cs) :
    ∃ path query fragment, text = path ++ (behind 63 query ++ behind 35 fragment) ∧
      IsText isPathChar path ∧ (∀ q ∈ query, IsText isQueryChar q) ∧
      ∀ f ∈ fragment, IsText isQueryChar f := by
  have hstart : region 513 = 10 := rfl
  by_cases hin : region cs ≤ 10
  · have hlow := ranked.path_le (by decide) hpath
    refine ⟨text, none, none, by simp [behind], ?_, by simp, by simp⟩
    exact (reads_path.isText_iff (by decide : 10 ≤ region 513) rfl).mpr
      ⟨cs, hpath, (plain_of_final (lt_of_region (by omega)) hfinal).1 (by omega)⟩
  · obtain ⟨path, c, rest, r, r', acts, rfl, hbefore, hr, hnext, hr', hrest⟩ :=
      Automaton.exists_crossing (P := fun cs => region cs ≤ 10) (by decide) hin hpath
    have hlow := ranked.path_le (by decide) hbefore
    obtain ⟨e, -, hbound, rfl, -, hlo, hhi⟩ := exists_edge (by omega) hnext
    obtain ⟨hquestion, hsharp⟩ := hbound.tail (by omega) (by omega)
    have hedge := (singleEdges (show 0 < region r by omega)).path (by omega)
    have hplain : r = 513 → IsText isPathChar path := by
      rintro rfl
      exact (reads_path.isText_iff (by decide : 10 ≤ region 513) rfl).mpr ⟨513, hbefore, rfl⟩
    -- the byte that ends the path starts a query or a fragment
    by_cases hquery : region e.target ≤ 12
    · have hbyte := hquestion hquery (by omega) (by omega)
      obtain rfl : c = 63 := UInt8.toNat_inj.mp (by change c.toNat = 63; omega)
      rw [machine_next, hedge.1] at hnext
      split_ifs at hnext with hr513
      rw [← (Prod.mk.inj (Option.some.inj hnext)).1] at hrest
      obtain ⟨query, fragment, rfl, hquery, hfragment⟩ := exists_query hrest hfinal
      refine ⟨path, some query, fragment, rfl, hplain hr513, ?_, hfragment⟩
      rintro q hq
      obtain rfl := Option.some.inj hq
      exact hquery
    · have hbyte := hsharp (by omega)
      obtain rfl : c = 35 := UInt8.toNat_inj.mp (by change c.toNat = 35; omega)
      rw [machine_next, hedge.2] at hnext
      split_ifs at hnext with hr513
      rw [← (Prod.mk.inj (Option.some.inj hnext)).1] at hrest
      refine ⟨path, none, some rest, rfl, hplain hr513, by simp, ?_⟩
      rintro f hf
      obtain rfl := Option.some.inj hf
      exact exists_fragment hrest hfinal

/-- What comes behind an authority, from a state in which it may end. -/
theorem exists_tail (hlow : 5 ≤ region cs) (hhigh : region cs ≤ 8) (hfinal : 451 ≤ cs)
    (htail : IsTail text) (hpath : machine.path cs text = some cs') (hfinal' : 451 ≤ cs') :
    ∃ path query fragment, text = path ++ (behind 63 query ++ behind 35 fragment) ∧
      IsPath path ∧ (∀ q ∈ query, IsText isQueryChar q) ∧
      ∀ f ∈ fragment, IsText isQueryChar f := by
  cases text with
  | nil => exact ⟨[], none, none, rfl, trivial, by simp, by simp⟩
  | cons c text =>
    have hends := (singleEdges (show 0 < region cs by omega)).ends hlow hhigh
    simp only [if_pos hfinal, ← machine_next] at hends
    obtain ⟨r, acts, hnext, hrest⟩ := Automaton.path_cons_eq_some.mp hpath
    -- a path, or at once a query or a fragment
    rcases htail c rfl with rfl | rfl | rfl
    · have hedge := hnext.symm.trans (hends (47, 513, []) (by decide))
      rw [(Prod.mk.inj (Option.some.inj hedge)).1] at hrest
      obtain ⟨path, query, fragment, rfl, hpath, hparts⟩ := exists_path hrest hfinal'
      exact ⟨47 :: path, query, fragment, rfl, ⟨rfl, hpath⟩, hparts⟩
    · have hedge := hnext.symm.trans (hends (63, 456, [.save_path]) (by decide))
      rw [(Prod.mk.inj (Option.some.inj hedge)).1] at hrest
      obtain ⟨query, fragment, rfl, hquery, hfragment⟩ := exists_query hrest hfinal'
      refine ⟨[], some query, fragment, rfl, trivial, ?_, hfragment⟩
      rintro q hq
      obtain rfl := Option.some.inj hq
      exact hquery
    · have hedge := hnext.symm.trans (hends (35, 453, [.save_path]) (by decide))
      rw [(Prod.mk.inj (Option.some.inj hedge)).1] at hrest
      refine ⟨[], none, some text, rfl, trivial, by simp, ?_⟩
      rintro f hf
      obtain rfl := Option.some.inj hf
      exact exists_fragment hrest hfinal'

theorem isDigit_of_path (hcs : cs = 514 ∨ cs = 515) (hpath : machine.path cs text = some cs')
    (hcs' : region cs' ≤ 8) : ∀ b ∈ text, isDigit b = true := by
  induction text generalizing cs with
  | nil => simp
  | cons d text ih =>
    obtain ⟨r, acts, hnext, hrest⟩ := Automaton.path_cons_eq_some.mp hpath
    have hregion : 5 ≤ region cs := by rcases hcs with rfl | rfl <;> decide
    have hstay := not_ending_of_path hregion hpath hcs' (List.mem_cons_self ..)
    have hne : ∀ n : UInt8, d ≠ n → d.toNat ≠ n.toNat := fun n hdn heq =>
      hdn (UInt8.toNat_inj.mp heq)
    -- in a port the edges are on digits, but for those that end the authority
    have hedge := digits_edge ⟨d.toNat, d.toNat_lt⟩ (hne 35 (by tauto)) (hne 47 (by tauto))
      (hne 63 (by tauto))
    simp only [UInt8.ofNat_toNat, ← machine_next] at hedge
    have hd : isDigit d = true ∧ r = 515 := by
      rcases hcs with rfl | rfl
      · rw [hedge.1] at hnext
        split_ifs at hnext with hdigit
        exact ⟨hdigit, (Prod.mk.inj (Option.some.inj hnext)).1.symm⟩
      · rw [hedge.2] at hnext
        split_ifs at hnext with hdigit
        exact ⟨hdigit, (Prod.mk.inj (Option.some.inj hnext)).1.symm⟩
    intro b hb
    rcases List.mem_cons.mp hb with rfl | hb
    · exact hd.1
    · exact ih (.inr hd.2) hrest b hb

/-- A host, and a port behind its colon. -/
theorem exists_hostPort (hpath : machine.path 522 text = some cs) (hcs : region cs ≤ 8)
    (hfinal : 451 ≤ cs) : ∃ host port, text = host ++ behind 58 port ∧ IsHost host ∧
      ∀ p ∈ port, ∀ b ∈ p, isDigit b = true := by
  by_cases hin : region cs ≤ 6
  · exact ⟨text, none, by rw [behind, Option.elim_none, List.append_nil], ⟨cs, hpath, hin, hfinal⟩,
      by simp⟩
  · obtain ⟨host, c, port, r, r', acts, rfl, hhost, hr, hnext, hr', hport⟩ :=
      Automaton.exists_crossing (P := fun cs => region cs ≤ 6) (by decide) hin hpath
    have hlow : 5 ≤ region r := ranked.path_le (s := 522) (by decide) hhost
    have hle := ranked.path_le (by omega) hport
    obtain ⟨e, -, hbound, rfl, -, hlo, hhi⟩ := exists_edge (by omega) hnext
    obtain ⟨hends, hcolon⟩ := hbound.host (by omega) (by omega)
    obtain ⟨htarget, hbyte⟩ := hcolon (by omega)
    obtain rfl : c = 58 := UInt8.toNat_inj.mp (by change c.toNat = 58; omega)
    rw [htarget] at hport
    refine ⟨host, some port, rfl, ⟨r, hhost, hr, hends⟩, ?_⟩
    rintro p hp
    obtain rfl := Option.some.inj hp
    exact isDigit_of_path (.inl rfl) hport hcs

/-- Userinfo in front of an `@`. -/
theorem exists_user (hpath : machine.path 511 text = some cs) (hcs : region cs ≤ 8)
    (htwin : twin cs = some cs') : ∃ user rest, text = ahead 64 user ++ rest ∧
      (∀ u ∈ user, IsText isUserChar u) ∧ machine.path 522 rest = some cs' := by
  by_cases hat : 64 ∈ text
  · obtain ⟨user, rest, rfl, huser⟩ := List.eq_append_cons_of_mem hat
    rw [Automaton.path_append, Option.bind_eq_some_iff] at hpath
    obtain ⟨r, hbefore, hafter⟩ := hpath
    obtain ⟨r', acts, hnext, hrest⟩ := Automaton.path_cons_eq_some.mp hafter
    have hlow : 1 ≤ region r := ranked.path_le (s := 511) (by decide) hbefore
    have hr := ranked.le hlow hnext
    have hle := ranked.path_le (by omega) hrest
    obtain ⟨e, -, hbound, rfl, -, hlo, hhi⟩ := exists_edge hlow hnext
    -- behind the sign there is no second one
    have hregion : region r ≤ 4 := by
      by_contra hhigh
      have honce := hbound.once (by omega) (by omega)
      have hbyte : (64 : UInt8).toNat = 64 := rfl
      omega
    rw [machine_next, (singleEdges hlow).user hregion,
      Option.ite_none_right_eq_some] at hnext
    obtain ⟨hplain, hnext⟩ := hnext
    obtain ⟨htarget, -⟩ := Prod.mk.inj (Option.some.inj hnext)
    rw [← htarget] at hrest
    have hstart : region 522 = 5 := rfl
    have hself := ranked.path_le (by decide) hrest
    rw [twin_eq_self (by omega)] at htwin
    obtain rfl := Option.some.inj htwin
    refine ⟨some user, rest, by simp [ahead], ?_, hrest⟩
    rintro u hu
    obtain rfl := Option.some.inj hu
    exact (reads_user.isText_iff (by decide : 1 ≤ region 511) rfl).mpr ⟨r, hbefore, hplain⟩
  -- without the sign the machine goes as it does behind one
  · have hkeep : ∀ s b s' acts, 0 < region s → machine.next s b = some (s', acts) → 0 < region s' :=
      fun s b s' acts hs hnext => Nat.lt_of_lt_of_le hs (ranked.le hs hnext)
    obtain ⟨r, hr, hpath'⟩ := (Automaton.path_map_iff hkeep (fun s b hs hb => twin_edge hs hb)
      (by decide : 0 < region 511) fun b hb => ne_of_mem_of_not_mem hb hat).mpr ⟨cs, htwin, hpath⟩
    obtain rfl := Option.some.inj hr
    exact ⟨none, text, rfl, by simp, hpath'⟩

/-- An authority, with the twin of the state behind it. -/
theorem exists_authority (hpath : machine.path 511 text = some cs) (hfinal : 451 ≤ cs) :
    ∃ authority tail ca ch cs', text = authority ++ tail ∧ machine.path 511 authority = some ca ∧
      region ca ≤ 8 ∧ twin ca = some ch ∧ 5 ≤ region ch ∧ region ch ≤ 8 ∧ 451 ≤ ch ∧ IsTail tail ∧
      machine.path ch tail = some cs' ∧ 451 ≤ cs' := by
  have hregion : ∀ {r ch}, 1 ≤ region r → region r ≤ 9 → twin r = some ch →
      region r ≤ 8 ∧ 5 ≤ region ch ∧ region ch ≤ 8 := by
    intro r ch hlow hhigh htwin
    have hne := (region_values (lt_of_region hlow)).1
    by_cases h : region r ≤ 4
    · obtain ⟨hrange, -⟩ := twin_image hlow htwin
      exact ⟨by omega, hrange h⟩
    · rw [twin_eq_self (by omega)] at htwin
      obtain rfl := Option.some.inj htwin
      omega
  by_cases hin : region cs ≤ 9
  · -- the string ends with the authority
    have hlow : 1 ≤ region cs := ranked.path_le (s := 511) (by decide) hpath
    obtain ⟨ch, htwin⟩ :=
      Option.isSome_iff_exists.mp (twin_isSome hlow hfinal)
    obtain ⟨hle, hrange⟩ := hregion hlow hin htwin
    have hch := (twin_image hlow htwin).2.1.mpr hfinal
    exact ⟨text, [], cs, ch, ch, (List.append_nil text).symm, hpath, hle, htwin, hrange.1, hrange.2,
      hch, by simp [IsTail], rfl, hch⟩
  -- the first byte that leaves the authority ends it
  · obtain ⟨authority, c, tail, r, r', acts, rfl, hauthority, hr, hnext, hr', htail⟩ :=
      Automaton.exists_crossing (P := fun cs => region cs ≤ 9) (by decide) hin hpath
    have hlow : 1 ≤ region r := ranked.path_le (s := 511) (by decide) hauthority
    have hne := (region_values (lt_of_region hlow)).1
    obtain ⟨e, -, hbound, rfl, rfl, hlo, hhi⟩ := exists_edge hlow hnext
    obtain ⟨hbyte, hmem⟩ := hbound.ends (by omega) (by omega)
    have hc : c = 47 ∨ c = 63 ∨ c = 35 := by
      simp only [List.mem_cons, List.not_mem_nil, or_false] at hmem
      rcases hmem with hmem | hmem | hmem
      · exact .inr (.inr (UInt8.toNat_inj.mp (by change c.toNat = 35; omega)))
      · exact .inl (UInt8.toNat_inj.mp (by change c.toNat = 47; omega))
      · exact .inr (.inl (UInt8.toNat_inj.mp (by change c.toNat = 63; omega)))
    have hat : c ≠ 64 := by rcases hc with rfl | rfl | rfl <;> decide
    have hedge := twin_edge hlow hat
    have hself : twin e.target = some e.target := twin_eq_self (by omega)
    simp only [hnext, Option.bind_some, hself, Option.map_some] at hedge
    rw [eq_comm, Option.bind_eq_some_iff] at hedge
    obtain ⟨ch, htwin, hnext'⟩ := hedge
    obtain ⟨hle, hrange⟩ := hregion hlow hr htwin
    have hch : 451 ≤ ch := by
      obtain ⟨r₀, acts₀, -, hending⟩ := exists_ending hrange.1 hrange.2 hc
      rw [hnext'] at hending
      by_contra hlt
      rw [if_neg hlt] at hending
      cases hending
    exact ⟨authority, c :: tail, r, ch, cs, rfl, hauthority, hle, htwin, hrange.1, hrange.2, hch,
      fun d hd => Option.some.inj hd ▸ hc,
      Automaton.path_cons_eq_some.mpr ⟨_, _, hnext', htail⟩, hfinal⟩

/-- **What `Create` accepts has parts.** -/
theorem exists_parts {scheme rest : List UInt8} {uri : Uri} (hscheme : IsScheme scheme)
    (h : create (scheme ++ bytes "://" ++ rest) = some (some uri)) :
    ∃ P : Parts, P.scheme = scheme ∧ P.text = scheme ++ bytes "://" ++ rest := by
  have hdrop : (scheme ++ bytes "://" ++ rest).drop 0 = scheme ++ bytes "://" ++ rest := rfl
  rw [create_eq, Automaton.exec_append (exec_scheme hscheme hdrop {}), Option.bind_eq_some_iff] at h
  obtain ⟨⟨cs?, l⟩, hexec, hfinish⟩ := h
  cases cs? with
  | none => cases Option.some.inj hfinish
  | some cs =>
    obtain ⟨l', -, haccept⟩ := Option.map_eq_some_iff.mp hfinish
    rw [Option.ite_none_right_eq_some] at haccept
    obtain ⟨authority, tail, ca, ch, cs', rfl, hauthority, hca, htwin, hlow, hhigh, hch, htail,
      hpath, hcs'⟩ := exists_authority (Automaton.path_of_exec hexec) haccept.1
    obtain ⟨user, text, rfl, huser, hhostPort⟩ := exists_user hauthority hca htwin
    obtain ⟨host, port, rfl, hhost, hport⟩ := exists_hostPort hhostPort hhigh hch
    obtain ⟨path, query, fragment, rfl, hisPath, hquery, hfragment⟩ :=
      exists_tail hlow hhigh hch htail hpath hcs'
    exact ⟨⟨scheme, user, host, port, path, query, fragment, hscheme, huser, hhost, hport, hisPath,
      hquery, hfragment⟩, rfl, rfl⟩

end Accepted

end Uri

end Sylar
