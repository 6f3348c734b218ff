import Sylar.Config.Model

/-!
# Listeners and the stored value

`setValue` lets the read lock go between its notifications and its assignment. Two calls can notify
in one order and assign in the other, and then the listeners were last told of a value that is not
stored. Already the second notification is wrong: the first call has not assigned yet, so the old
value is the one that the first call replaces, and not the new value that the listeners were given.

A call that finds its value stored notifies nobody, and may run at any time.

## Main definitions

* `Agrees`: what a listener has received agrees with the value
* `Alone`: no call notifies while another one is between its notifications and its assignment

## Main results

* `Inv.step`, `Inv.chained`: steps that meet the condition keep the listeners right
* `not_chained`: a step that does not meet it breaks the chain of old and new values for good
* `agrees_iff`: the listeners agree after a run exactly if all its steps meet the condition
-/

namespace Sylar

open Foundation

namespace Config

variable {α : Type*} {init : α} {s t : System α} {a : Action α} {k i : ℕ} {v : α}
  {l : List (α × α)} {n : α × α}

/-- Each old value is the new value of the notification before. -/
def Chained (received : List (α × α)) : Prop := received.IsChain fun n n' => n'.1 = n.2

/-- **A listener agrees with the variable**: its notifications are chained, the last one was for
the stored value, and a mirror that it keeps up is equal to it. -/
structure Agrees (init : α) (s : System α) (k : ℕ) : Prop where
  chained : Chained (s.log k)
  last : ∀ n ∈ (s.log k).getLast?, n.2 = s.var.val
  mirror : mirror init (s.log k) = s.var.val

/-- A call that is about to notify finds no call that has notified and not assigned yet. -/
def Alone (s : System α) : Action α → Prop
  | .call _ => True
  | .step i => ∀ v, s.calls[i]? = some (.compare v) →
      v = s.var.val ∨ s.var.cbs = [] ∨ ∀ w, Call.store w ∉ s.calls

/-! ## One notification -/

@[simp] theorem mirror_concat : mirror init (l ++ [n]) = n.2 := by simp [mirror]

theorem mirror_of_getLast? (h : n ∈ l.getLast?) : mirror init l = n.2 := by
  rw [Option.mem_def] at h
  simp [mirror, h]

theorem chained_concat : Chained (l ++ [n]) ↔ Chained l ∧ ∀ m ∈ l.getLast?, n.1 = m.2 := by
  simp [Chained, List.isChain_append]

/-! ## Steps -/

/-- A call that has notified and not assigned yet. -/
def Call.stores : Call α → ℕ
  | .store _ => 1
  | .compare _ => 0

theorem tally_stores : tally s.calls Call.stores = 0 ↔ ∀ w, Call.store w ∉ s.calls := by
  simp only [tally, List.sum_eq_zero_iff, List.mem_map, forall_exists_index, and_imp,
    forall_apply_eq_imp_iff₂]
  constructor
  · intro h w hw
    cases h _ hw
  · intro h call hcall
    cases call with
    | compare v => rfl
    | store w => exact absurd hcall (h w)

/-- The invariant of the steps that meet the condition: each listener was last told of `target`,
which is stored, or is about to be stored by the one call that has notified. -/
inductive Inv (init : α) (s : System α) : Prop
  | deaf (hcbs : s.var.cbs = [])
  | settled (hstores : tally s.calls Call.stores = 0)
      (htold : ∀ k ∈ s.var.cbs, Chained (s.log k) ∧ mirror init (s.log k) = s.var.val)
  | pending (target : α) (hstores : tally s.calls Call.stores = 1)
      (hcalls : ∀ w, Call.store w ∈ s.calls → w = target) (hne : target ≠ s.var.val)
      (htold : ∀ k ∈ s.var.cbs, Chained (s.log k) ∧ ∃ n ∈ (s.log k).getLast?, n.2 = target)

theorem notify_of_mem (hk : k ∈ s.var.cbs) :
    s.var.notify v s.log k = s.log k ++ [(s.var.val, v)] := by
  rw [ConfigVar.notify_apply, if_pos hk]

/-- The old value that is notified is the one that the listeners were last told of. -/
theorem chained_notify (hk : k ∈ s.var.cbs) (hchain : Chained (s.log k))
    (hmirror : mirror init (s.log k) = s.var.val) : Chained (s.var.notify v s.log k) := by
  rw [notify_of_mem hk, chained_concat]
  refine ⟨hchain, fun m hm => ?_⟩
  rw [← hmirror, mirror_of_getLast? hm]

theorem stores_end (hcall : s.calls[i]? = some (.compare v)) :
    tally (advance s.calls i none) Call.stores = tally s.calls Call.stores := by
  simpa [Call.stores] using tally_advance none Call.stores hcall

namespace Inv

theorem start (c : ConfigVar α) : Inv c.val ⟨c, fun _ => [], []⟩ :=
  .settled rfl fun _ _ => ⟨List.isChain_nil, rfl⟩

/-- A call that goes on without a notification or an assignment. -/
theorem of_calls (h : Inv init s) {calls : List (Call α)}
    (htally : tally calls Call.stores = tally s.calls Call.stores)
    (hmem : ∀ w, Call.store w ∈ calls → Call.store w ∈ s.calls) :
    Inv init { s with calls := calls } := by
  cases h with
  | deaf hcbs => exact .deaf hcbs
  | settled hstores htold => exact .settled (htally.trans hstores) htold
  | pending target hstores hcalls hne htold =>
    exact .pending target (htally.trans hstores) (fun w hw => hcalls w (hmem w hw)) hne htold

/-- **A notification of a call alone**: the listeners are told of what it is about to store. -/
theorem notify (h : Inv init s) (hcall : s.calls[i]? = some (.compare v)) (hne : v ≠ s.var.val)
    (halone : s.var.cbs = [] ∨ ∀ w, Call.store w ∉ s.calls) :
    Inv init ⟨s.var, s.var.notify v s.log, advance s.calls i (some (.store v))⟩ := by
  rcases halone with hcbs | hnone
  · exact .deaf hcbs
  have htally := tally_advance (some (.store v)) Call.stores hcall
  have hzero := tally_stores.mpr hnone
  cases h with
  | deaf hcbs => exact .deaf hcbs
  | settled hstores htold =>
    refine .pending v ?_ (fun w hw => ?_) hne fun k hk => ⟨?_, ?_⟩
    · simpa [Call.stores, hzero] using htally
    · rcases mem_advance (show _ ∈ advance s.calls i (some (.store v)) from hw) with hw | hw
      · exact absurd hw (hnone w)
      · cases hw
        rfl
    · exact chained_notify hk (htold k hk).1 (htold k hk).2
    · refine ⟨(s.var.val, v), ?_, rfl⟩
      dsimp only
      rw [notify_of_mem (show k ∈ s.var.cbs from hk)]
      simp
  | pending target hstores =>
    rw [hzero] at hstores
    cases hstores

/-- **An assignment**: the value becomes the one that the listeners were told of. -/
theorem store (h : Inv init s) (hcall : s.calls[i]? = some (.store v)) :
    Inv init ⟨s.var.assign v, s.log, advance s.calls i none⟩ := by
  have htally := tally_advance none Call.stores hcall
  have hle := le_tally Call.stores hcall
  simp only [Call.stores, Option.map_none, Option.getD_none] at htally hle
  cases h with
  | deaf hcbs => exact .deaf hcbs
  | settled hstores => omega
  | pending target hstores hcalls hne htold =>
    refine .settled (by dsimp only; omega) fun k hk => ⟨(htold k hk).1, ?_⟩
    obtain ⟨n, hn, hnew⟩ := (htold k hk).2
    rw [mirror_of_getLast? hn, hnew, ← hcalls v (List.mem_of_getElem? hcall)]
    rfl

/-- Between calls every listener agrees with the variable. -/
theorem agrees (h : Inv init s) (hquiet : s.calls = []) (hk : k ∈ s.var.cbs) : Agrees init s k := by
  cases h with
  | deaf hcbs => simp [hcbs] at hk
  | settled hstores htold =>
    obtain ⟨hchain, hmirror⟩ := htold k hk
    refine ⟨hchain, fun n hn => ?_, hmirror⟩
    rw [← hmirror, mirror_of_getLast? hn]
  | pending target hstores => simp [hquiet] at hstores

end Inv

variable [DecidableEq α]

/-- What a step does. -/
theorem step_cases (h : machine.step s a = some t) :
    (∃ v, a = .call v ∧ t = { s with calls := s.calls ++ [.compare v] }) ∨
    (∃ i, a = .step i ∧ s.calls[i]? = some (.compare s.var.val) ∧
      t = { s with calls := advance s.calls i none }) ∨
    (∃ i v, a = .step i ∧ s.calls[i]? = some (.compare v) ∧ v ≠ s.var.val ∧
      t = ⟨s.var, s.var.notify v s.log, advance s.calls i (some (.store v))⟩) ∨
    ∃ i v, a = .step i ∧ s.calls[i]? = some (.store v) ∧
      t = ⟨s.var.assign v, s.log, advance s.calls i none⟩ := by
  cases a with
  | call v =>
    obtain rfl : _ = t := by simpa [machine] using h
    exact .inl ⟨v, rfl, rfl⟩
  | step i =>
    simp only [machine, Option.map_eq_some_iff] at h
    obtain ⟨call, hcall, rfl⟩ := h
    cases call with
    | compare v =>
      dsimp only [Call.exec]
      split_ifs with heq
      · subst heq
        exact .inr (.inl ⟨i, rfl, hcall, rfl⟩)
      · exact .inr (.inr (.inl ⟨i, v, rfl, hcall, heq, rfl⟩))
    | store v => exact .inr (.inr (.inr ⟨i, v, rfl, hcall, rfl⟩))

namespace Inv

theorem step (h : Inv init s) (halone : Alone s a) (hstep : machine.step s a = some t) :
    Inv init t := by
  rcases step_cases hstep with ⟨v, rfl, rfl⟩ | ⟨i, rfl, hcall, rfl⟩ | ⟨i, v, rfl, hcall, hne, rfl⟩ |
    ⟨i, v, rfl, hcall, rfl⟩
  · exact h.of_calls (tally_append _) fun w hw => by simpa using hw
  · exact h.of_calls (stores_end hcall) fun w hw => List.mem_of_mem_eraseIdx hw
  · exact h.notify hcall hne ((halone v hcall).resolve_left hne)
  · exact h.store hcall

/-- **A notification between those of another call and its assignment**: the old value is not the
new value that the listeners were given. -/
theorem not_chained (h : Inv init s) (halone : ¬ Alone s a) (hstep : machine.step s a = some t) :
    ¬ ∀ k ∈ t.var.cbs, Chained (t.log k) := by
  rcases step_cases hstep with ⟨v, rfl, rfl⟩ | ⟨i, rfl, hcall, rfl⟩ | ⟨i, v, rfl, hcall, hne, rfl⟩ |
    ⟨i, v, rfl, hcall, rfl⟩
  · exact absurd trivial halone
  · exact absurd (fun v hv => by simp_all) halone
  · simp only [Alone, hcall, Option.some.injEq, Call.compare.injEq, forall_eq', hne, false_or,
      not_or] at halone
    obtain ⟨hcbs, hstores⟩ := halone
    obtain ⟨k, hk⟩ := List.exists_mem_of_ne_nil _ hcbs
    intro hchain
    have hkchain := hchain k hk
    dsimp only at hkchain
    rw [notify_of_mem hk, chained_concat] at hkchain
    cases h with
    | deaf hcbs' => exact hcbs hcbs'
    | settled hzero => exact hstores (tally_stores.mp hzero)
    | pending target _ _ htarget htold =>
      obtain ⟨n, hn, hnew⟩ := (htold k hk).2
      exact htarget (hnew.symm.trans (hkchain.2 n hn).symm)
  · exact absurd (fun w hw => by simp_all) halone

end Inv

/-- A chain that is broken stays broken. -/
theorem chained_of_step (hstep : machine.step s a = some t)
    (h : ∀ k ∈ t.var.cbs, Chained (t.log k)) : ∀ k ∈ s.var.cbs, Chained (s.log k) := by
  rcases step_cases hstep with ⟨v, rfl, rfl⟩ | ⟨i, rfl, -, rfl⟩ | ⟨i, v, rfl, -, -, rfl⟩ |
    ⟨i, v, rfl, -, rfl⟩
  · exact h
  · exact h
  · intro k hk
    have hchain := h k hk
    dsimp only at hchain
    rw [notify_of_mem hk, chained_concat] at hchain
    exact hchain.1
  · exact h

theorem cbs_of_run {as : List (Action α)} (h : machine.run s as = some t) :
    t.var.cbs = s.var.cbs :=
  (Machine.reaches_of_run h).invariant (P := fun t => t.var.cbs = s.var.cbs) rfl
    fun t a u ht _ hstep => by
    rcases step_cases hstep with ⟨v, rfl, rfl⟩ | ⟨i, rfl, -, rfl⟩ | ⟨i, v, rfl, -, -, rfl⟩ |
      ⟨i, v, rfl, -, rfl⟩ <;> exact ht

/-- **Listeners and the stored value.** After any interleaving of calls of `setValue` that have all
returned, every listener agrees with the variable exactly if no call notified listeners while
another one was between its notifications and its assignment. -/
theorem agrees_iff {c : ConfigVar α} {as : List (Action α)}
    (h : machine.run ⟨c, fun _ => [], []⟩ as = some s) (hquiet : s.calls = []) :
    (∀ k ∈ c.cbs, Agrees c.val s k) ↔ machine.Meets Alone ⟨c, fun _ => [], []⟩ as := by
  have hcbs := cbs_of_run h
  dsimp only at hcbs
  rw [← hcbs]
  constructor
  · intro hagrees
    exact Machine.meets_of_run (I := Inv c.val) (fun _ _ _ hs hok hstep => hs.step hok hstep)
      (fun _ _ _ hs hok hstep => hs.not_chained hok hstep) (fun _ _ _ => chained_of_step)
      (Inv.start c) h fun k hk => (hagrees k hk).chained
  · intro hmeets k hk
    exact ((Machine.reach_of_meets h hmeets).invariant (P := Inv c.val) (Inv.start c)
      fun _ _ _ hs hok hstep => hs.step hok hstep).agrees hquiet hk

/-- A buffer size with one listener. -/
def bufferSize : ConfigVar UInt64 := (ConfigVar.addListener ({ val := 4096 } : ConfigVar UInt64)).1

theorem agrees_iff_bufferSize : ∃ s,
    machine.run ⟨bufferSize, fun _ => [], []⟩ [.call 1024, .step 0, .step 0] = some s ∧
      s.log 1 = [(4096, 1024)] ∧ Agrees bufferSize.val s 1 := by
  have hrun : (machine.run ⟨bufferSize, fun _ => [], []⟩ [.call 1024, .step 0, .step 0]).map
      (fun s => (s.calls, s.log 1)) = some ([], [(4096, 1024)]) := by decide
  obtain ⟨s, h, heq⟩ := Option.map_eq_some_iff.mp hrun
  rw [Prod.mk.injEq] at heq
  refine ⟨s, h, heq.2, (agrees_iff h heq.1).mpr ?_ 1 (by decide)⟩
  refine ⟨trivial, fun t ht => ?_⟩
  cases ht
  refine ⟨fun v _ => .inr (.inr fun w hw => by simp at hw), fun t ht => ?_⟩
  refine ⟨fun v hv => ?_, fun _ _ => trivial⟩
  have hstore : (machine.step (⟨bufferSize, fun _ => [], [.compare 1024]⟩ : System UInt64)
      (.step 0)).map (fun s => s.calls[0]?) = some (some (.store 1024)) := by decide
  change machine.step ⟨bufferSize, fun _ => [], [.compare 1024]⟩ (.step 0) = some t at ht
  rw [ht, Option.map_some, hv] at hstore
  cases hstore

/-- Two calls notify in one order and assign in the other. -/
theorem crossed : ∃ s,
    machine.run ⟨bufferSize, fun _ => [], []⟩
        [.call 1024, .call 2048, .step 0, .step 1, .step 1, .step 0] = some s ∧
      s.calls = [] ∧ s.var.val = 1024 ∧ s.log 1 = [(4096, 1024), (4096, 2048)] ∧
      mirror 4096 (s.log 1) = 2048 ∧ ¬ ∀ k ∈ bufferSize.cbs, Agrees bufferSize.val s k := by
  have hrun : (machine.run ⟨bufferSize, fun _ => [], []⟩
      [.call 1024, .call 2048, .step 0, .step 1, .step 1, .step 0]).map
      (fun s => (s.calls, s.var.val, s.log 1)) =
      some ([], 1024, [(4096, 1024), (4096, 2048)]) := by decide
  obtain ⟨s, h, heq⟩ := Option.map_eq_some_iff.mp hrun
  simp only [Prod.mk.injEq] at heq
  obtain ⟨hquiet, hval, hlog⟩ := heq
  refine ⟨s, h, hquiet, hval, hlog, by rw [hlog]; rfl, fun hagrees => ?_⟩
  have hmirror := (hagrees 1 (by decide)).mirror
  rw [hlog, hval] at hmirror
  exact absurd hmirror (by decide)

end Config

end Sylar
