import Sylar.Http.Client

/-!
# Runs of the response parser

The marks of the parser are offsets into the buffer of the current call. An edge of the machine is
safe when its actions only use marks that have been set, or reset, in this buffer. Along safe edges
no range leaves the buffer, no call fails, and the state of the machine and whether the message
comes in chunks depend on the bytes alone, however they are divided among the calls.

## Main definitions

* `Stage`, `stage`: what the marks are good for, by the state of the machine
* `advance`: the safe edges, on the state of the machine and the flag
* `Sound`: the marks stay in the buffer

## Main results

* `exec_track`: a run along safe edges
* `Comes.execute`, `Comes.execute_done`: a call that wants more, and one that finishes
-/

namespace Sylar

namespace Http

namespace HttpResponseParser

/-! ## Safe edges -/

/-- What the marks are good for. -/
inductive Stage
  /-- The version, from its mark on. -/
  | version
  /-- No field. -/
  | plain
  /-- The name of a field, from its mark on. -/
  | naming
  /-- A field with a name. -/
  | valued
  deriving DecidableEq, Repr

/-- The states within the name of a field. -/
def inName (cs : ℕ) : Bool :=
  cs = 21 || (25 ≤ cs && cs ≤ 34) || (44 ≤ cs && cs ≤ 60) || (73 ≤ cs && cs ≤ 79) ||
    (90 ≤ cs && cs ≤ 94) || (101 ≤ cs && cs ≤ 111) || cs = 117

/-- The states in front of a value. -/
def inBlank (cs : ℕ) : Bool := cs = 22 || cs = 35 || cs = 61 || cs = 112

/-- The states within a value. -/
def inValue (cs : ℕ) : Bool :=
  cs = 23 || (81 ≤ cs && cs ≤ 87) || (96 ≤ cs && cs ≤ 100) || cs = 119

def stage (cs : ℕ) : Stage :=
  if cs = 15 then .version
  else if inName cs || cs = 5 then .naming
  else if inBlank cs || inValue cs || cs = 6 || cs = 7 then .valued
  else .plain

/-- The stage behind an action, if the action is safe in a stage. -/
def Stage.after : Stage → ClientAction → Option Stage
  | .version, .http_version => some .plain
  | .version, _ => none
  | _, .http_version => none
  | _, .done => none
  | _, .start_field => some .naming
  | .naming, .write_field => some .valued
  | _, .write_field => none
  | .valued, .write_value => some .valued
  | _, .write_value => none
  | st, _ => some st

/-- Behind the actions of an edge, the stage of its end. -/
def Stage.allows (st st' : Stage) : Bool := st ≠ .version && (st' = st || st' = .plain)

/-- A safe edge with actions from `A`, on the state of the machine and on whether the message comes
in chunks. -/
def advance (A : ClientAction → Bool) (x : ℕ × Bool) (c : UInt8) : Option (ℕ × Bool) :=
  (next x.1 c).bind fun (cs, actions) =>
    if cs ≠ 0 ∧ cs < 120 ∧ actions.all A ∧
        (actions.foldlM Stage.after (stage x.1)).any (·.allows (stage cs)) then
      some (cs, x.2 || actions.contains .trans_chunked || actions.contains .chunk_size)
    else none

/-- The bytes of a text, one after the other. -/
def track (A : ClientAction → Bool) (x : ℕ × Bool) (text : List UInt8) : Option (ℕ × Bool) :=
  text.foldlM (advance A) x

variable {A : ClientAction → Bool} {x y z : ℕ × Bool} {c : UInt8} {text text' rest : List UInt8}

@[simp] theorem track_nil : track A x [] = some x := rfl

theorem track_cons (h : advance A x c = some y) : track A x (c :: text) = track A y text := by
  rw [track, List.foldlM_cons, h]
  rfl

theorem track_append (h : track A x text = some y) :
    track A x (text ++ text') = track A y text' := by
  unfold track at h ⊢
  rw [List.foldlM_append, h]
  rfl

/-- A text that is tracked is tracked to the end of each of its parts. -/
theorem exists_track (h : track A x (text ++ text') = some z) :
    ∃ y, track A x text = some y ∧ track A y text' = some z := by
  unfold track at h ⊢
  rw [List.foldlM_append] at h
  exact Option.bind_eq_some_iff.mp h

/-! ## Marks -/

variable {buffer : List UInt8} {p cs cs' : ℕ} {b b' : Bool} {st st' : Stage} {a : ClientAction}
  {s s' : HttpResponseParser}

/-- **The marks stay in the buffer**, and up to the byte `p` they are what the stage needs. -/
structure Sound (buffer : List UInt8) (p : ℕ) (st : Stage) (s : HttpResponseParser) : Prop where
  error : s.error = 0
  body_start : s.parser.body_start = 0
  nread : s.parser.nread = 0
  mark : s.parser.mark ≤ p
  mark_lt : s.parser.mark < buffer.length
  field_start_lt : s.parser.field_start < buffer.length
  field_len_le : s.parser.field_len ≤ buffer.length
  version : st = .version → versionOf (buffer.drop s.parser.mark) (len s.parser.mark p) ≠ none
  naming : st = .naming → s.parser.field_start ≤ p
  valued : st = .valued → s.parser.field_start + s.parser.field_len ≤ p

/-- A range behind a mark is a string. -/
theorem exists_str (buffer : List UInt8) (start n : ℕ) (h : start + n ≤ buffer.length) :
    ∃ v, str (buffer.drop start) n = some v := by
  rw [str, List.length_drop, if_pos (by omega)]
  exact ⟨_, rfl⟩

/-- **A safe action** does not fail, and keeps the marks in the buffer. -/
theorem Sound.act (hs : Sound buffer p st s) (hp : p < buffer.length) (h : st.after a = some st') :
    ∃ s', s.act buffer p a = some s' ∧ Sound buffer p st' s' := by
  have hmark := hs.mark
  have hlen : len s.parser.mark p = p - s.parser.mark := if_pos hmark
  cases a with
  | mark | start_value =>
    cases st <;> cases h
    all_goals exact ⟨_, rfl, { hs with mark := le_rfl, mark_lt := hp, version := nofun }⟩
  -- the edge says at which stages it may be taken, and `cases st` keeps those
  | start_field =>
    cases st <;> cases h
    all_goals
      exact ⟨_, rfl, { hs with
        field_start_lt := hp
        version := nofun
        naming := fun _ => le_rfl
        valued := nofun }⟩
  | write_field =>
    cases st <;> cases h
    have hstart := hs.naming rfl
    have hfield : len s.parser.field_start p = p - s.parser.field_start := if_pos hstart
    refine ⟨_, rfl, { hs with
      field_len_le := ?_
      version := nofun
      naming := nofun
      valued := fun _ => ?_ }⟩
    · simp only [update, hfield]
      omega
    · simp only [update, hfield]
      omega
  -- the name was measured in this buffer
  | write_value =>
    cases st <;> cases h
    have hfield := hs.valued rfl
    simp only [HttpResponseParser.act, onResponseHttpField]
    split_ifs with hflen
    · exact ⟨s, rfl, hs⟩
    · obtain ⟨key, hkey⟩ :=
        exists_str buffer s.parser.field_start s.parser.field_len (by omega)
      obtain ⟨val, hval⟩ := exists_str buffer s.parser.mark (len s.parser.mark p) (by omega)
      rw [hkey, hval]
      exact ⟨_, rfl, { hs with }⟩
  | reason_phrase =>
    obtain ⟨reason, hreason⟩ := exists_str buffer s.parser.mark (len s.parser.mark p) (by omega)
    simp only [HttpResponseParser.act, onResponseReason, hreason]
    cases st <;> cases h
    all_goals exact ⟨_, rfl, { hs with }⟩
  | write_content_len | write_connection_close | status_code | chunk_size | trans_chunked =>
    cases st <;> cases h
    all_goals exact ⟨_, rfl, { hs with }⟩
  | http_version =>
    cases st <;> cases h
    simp only [HttpResponseParser.act, onResponseVersion]
    have hversion := hs.version rfl
    split
    · exact ⟨_, rfl, { hs with version := nofun, naming := nofun, valued := nofun }⟩
    · contradiction
  | done => cases st <;> cases h

/-- The marks are as good one byte later, and in a stage that needs less. -/
theorem Sound.allow (hs : Sound buffer p st s) (h : st.allows st' = true) :
    Sound buffer (p + 1) st' s := by
  have hmark := hs.mark
  obtain ⟨hversion, heq | heq⟩ : st ≠ .version ∧ (st' = st ∨ st' = .plain) := by
    simpa [Stage.allows] using h
  · subst heq
    exact { hs with
      mark := by omega
      version := fun h => absurd h hversion
      naming := fun h => Nat.le_succ_of_le (hs.naming h)
      valued := fun h => Nat.le_succ_of_le (hs.valued h) }
  · subst heq
    exact { hs with
      mark := by omega
      version := nofun
      naming := nofun
      valued := nofun }

/-- The flag of an action. -/
theorem chunked_act (h : s.act buffer p a = some s') (ha : a ≠ .done) :
    s'.parser.chunked =
      (s.parser.chunked || decide (.trans_chunked = a) || decide (.chunk_size = a)) := by
  cases a with
  | mark | start_value | start_field | write_field | write_content_len | write_connection_close
  | trans_chunked | chunk_size | status_code =>
    obtain rfl := Option.some.inj h
    simp [update, onResponseStatus]
  | reason_phrase =>
    obtain ⟨reason, -, rfl⟩ := Option.map_eq_some_iff.mp h
    simp
  | http_version =>
    obtain rfl := Option.some.inj h
    unfold onResponseVersion
    split <;> simp
  | write_value =>
    simp only [HttpResponseParser.act, onResponseHttpField] at h
    split_ifs at h
    · obtain rfl := Option.some.inj h
      simp
    · obtain ⟨key, -, hval⟩ := Option.bind_eq_some_iff.mp h
      obtain ⟨val, -, rfl⟩ := Option.map_eq_some_iff.mp hval
      simp
  | done => exact absurd rfl ha

/-- **The actions of a safe edge**, with what the admitted actions keep. -/
theorem exists_actions {P : HttpResponseParser → Prop} {actions : List ClientAction}
    (hP : ∀ a s s', A a = true → s.act buffer p a = some s' → P s → P s')
    (hA : actions.all A = true) (h : actions.foldlM Stage.after st = some st')
    (hs : Sound buffer p st s) (hp : p < buffer.length) (hPs : P s) :
    ∃ s', actions.foldlM (HttpResponseParser.act buffer p) s = some s' ∧ Sound buffer p st' s' ∧
      s'.parser.chunked = (s.parser.chunked || actions.contains .trans_chunked ||
        actions.contains .chunk_size) ∧ P s' := by
  induction actions generalizing s st with
  | nil =>
    obtain rfl := Option.some.inj h
    exact ⟨s, rfl, hs, by simp, hPs⟩
  | cons a actions ih =>
    rw [List.all_cons, Bool.and_eq_true] at hA
    obtain ⟨st₁, hst, hrest⟩ := Option.bind_eq_some_iff.mp h
    obtain ⟨s₁, hact, hs₁⟩ := hs.act hp hst
    obtain ⟨s', hacts, hs', hflag, hPs'⟩ := ih hA.2 hrest hs₁ (hP a s s₁ hA.1 hact hPs)
    have hdone : a ≠ .done := by
      rintro rfl
      cases st <;> cases hst
    refine ⟨s', ?_, hs', ?_, hPs'⟩
    · rw [List.foldlM_cons, hact]
      exact hacts
    · rw [hflag, chunked_act hact hdone, List.contains_cons, List.contains_cons,
        beq_eq_decide, beq_eq_decide]
      ac_rfl

theorem advance_eq_some : advance A (cs, b) c = some y ↔
    ∃ cs' actions st, next cs c = some (cs', actions) ∧ (cs' ≠ 0 ∧ cs' < 120) ∧
      actions.all A = true ∧ actions.foldlM Stage.after (stage cs) = some st ∧
      st.allows (stage cs') = true ∧
      y = (cs', b || actions.contains .trans_chunked || actions.contains .chunk_size) := by
  unfold advance
  rw [Option.bind_eq_some_iff]
  constructor
  · rintro ⟨⟨cs', actions⟩, hnext, h⟩
    simp only at h
    split_ifs at h with hsafe
    obtain ⟨hzero, hlt, hA, hany⟩ := hsafe
    obtain ⟨st, hst, hallows⟩ := (Option.any_eq_true ..).mp hany
    exact ⟨cs', actions, st, hnext, ⟨hzero, hlt⟩, hA, hst, hallows, (Option.some.inj h).symm⟩
  · rintro ⟨cs', actions, st, hnext, ⟨hzero, hlt⟩, hA, hst, hallows, rfl⟩
    refine ⟨(cs', actions), hnext, if_pos ⟨hzero, hlt, hA, ?_⟩⟩
    exact (Option.any_eq_true ..).mpr ⟨st, hst, hallows⟩

/-- A text that has been tracked ends in a state that is neither an error nor final. -/
theorem lt_of_track (h : track A x text = some y) (hne : text ≠ []) : y.1 ≠ 0 ∧ y.1 < 120 := by
  induction text generalizing x with
  | nil => exact absurd rfl hne
  | cons c text ih =>
    obtain ⟨z, hadvance, hrest⟩ := Option.bind_eq_some_iff.mp h
    by_cases hnil : text = []
    · subst hnil
      obtain rfl := Option.some.inj hrest
      obtain ⟨cs, actions, st, -, hcs, -, -, -, rfl⟩ := advance_eq_some.mp hadvance
      exact hcs
    · exact ih hrest hnil

/-- `done` is no safe action. -/
theorem done_notMem {actions : List ClientAction}
    (h : actions.foldlM Stage.after st = some st') : .done ∉ actions := by
  induction actions generalizing st with
  | nil => exact List.not_mem_nil
  | cons a actions ih =>
    obtain ⟨st₁, hst, hrest⟩ := Option.bind_eq_some_iff.mp h
    rw [List.mem_cons, not_or]
    refine ⟨?_, ih hrest⟩
    rintro rfl
    cases st <;> cases hst

/-! ## Runs -/

/-- **A run along safe edges** goes on behind them, with what the admitted actions keep. -/
theorem exec_track {P : HttpResponseParser → Prop} (rest : List UInt8)
    (hP : ∀ p a s s', A a = true → s.act buffer p a = some s' → P s → P s')
    (h : track A (cs, b) text = some (cs', b')) (hs : Sound buffer p (stage cs) s)
    (hb : s.parser.chunked = b) (hPs : P s) (hlen : p + text.length ≤ buffer.length) :
    ∃ s', s.exec buffer cs p (text ++ rest) = s'.exec buffer cs' (p + text.length) rest ∧
      Sound buffer (p + text.length) (stage cs') s' ∧ s'.parser.chunked = b' ∧ P s' := by
  induction text generalizing s cs b p with
  | nil =>
    cases h
    exact ⟨s, rfl, hs, hb, hPs⟩
  | cons c text ih =>
    rw [List.length_cons] at hlen
    obtain ⟨y, hadvance, hrest⟩ := Option.bind_eq_some_iff.mp h
    obtain ⟨cs₁, actions, st, hnext, -, hA, hst, hallows, rfl⟩ := advance_eq_some.mp hadvance
    obtain ⟨s₁, hacts, hs₁, hflag, hPs₁⟩ := exists_actions (hP p) hA hst hs (by omega) hPs
    rw [hb] at hflag
    obtain ⟨s', hexec, hs', hb', hPs'⟩ := ih hrest (hs₁.allow hallows) hflag hPs₁ (by omega)
    rw [Nat.add_assoc, Nat.add_comm 1] at hexec hs'
    refine ⟨s', ?_, hs', hb', hPs'⟩
    rw [List.cons_append, exec]
    simp only [hnext, hacts, Option.bind_some, if_neg (done_notMem hst)]
    exact hexec

/-! ## Calls -/

/-- The parser at the start of a call. -/
def restart (s : HttpResponseParser) : HttpResponseParser :=
  s.update ({ · with nread := 0, mark := 0, field_len := 0, field_start := 0 })

/-- The parser between two calls, in a state of the machine and with a flag. -/
structure At (x : ℕ × Bool) (s : HttpResponseParser) : Prop where
  cs : s.parser.cs = x.1
  chunked : s.parser.chunked = x.2
  error : s.error = 0
  body_start : s.parser.body_start = 0

/-- A call resets the marks, and so a name, a value or the version may be cut in front of it. -/
theorem At.sound (h : s.At (cs, b)) (hne : buffer ≠ []) :
    Sound buffer 0 (stage cs) s.restart where
  error := h.error
  body_start := h.body_start
  nread := rfl
  mark := le_rfl
  mark_lt := List.length_pos_iff.mpr hne
  field_start_lt := List.length_pos_iff.mpr hne
  field_len_le := Nat.zero_le _
  version _ := nofun
  naming _ := le_rfl
  valued _ := le_rfl

/-- The call comes to the byte `p` of the buffer, with the text behind it. -/
structure Comes (buffer : List UInt8) (s : HttpResponseParser) (p : ℕ) (x : ℕ × Bool)
    (text : List UInt8) (s₁ : HttpResponseParser) : Prop where
  exec : s.restart.exec buffer s.parser.cs 0 buffer = s₁.exec buffer x.1 p text
  sound : Sound buffer p (stage x.1) s₁
  chunked : s₁.parser.chunked = x.2
  length : p + text.length = buffer.length

theorem At.comes (h : s.At x) (hne : buffer ≠ []) : Comes buffer s 0 x buffer s.restart where
  exec := by rw [h.cs]
  sound := h.sound hne
  chunked := h.chunked
  length := Nat.zero_add _

/-- The parser behind a run, with the state of the machine and the bytes that were taken. -/
def stop (s : HttpResponseParser) (cs n : ℕ) : HttpResponseParser :=
  s.update fun x => { x with cs := cs, nread := x.nread + n }

theorem nread_stop {n : ℕ} (h : s.parser.nread = 0) : (s.stop cs n).parser.nread = n := by
  rw [stop, update, h, Nat.zero_add]

/-- A run whose marks are in the buffer passes the checks of the call. -/
theorem execute_of_exec {s₁ : HttpResponseParser} {n : ℕ}
    (hexec : s.restart.exec buffer s.parser.cs 0 buffer = some (s₁, cs, n))
    (hbounds : (s₁.stop cs n).parser.inBounds buffer.length) (hnread : s₁.parser.nread = 0) :
    s.execute buffer false = some (s₁.stop cs n, n, buffer.drop n) := by
  have hcall : s.execute buffer false =
      ((s.restart.exec buffer s.parser.cs 0 buffer).bind fun r =>
        if (r.1.stop r.2.1 r.2.2).parser.inBounds buffer.length then
          some (r.1.stop r.2.1 r.2.2, (r.1.stop r.2.1 r.2.2).parser.nread)
        else none).map fun r => (r.1, r.2, buffer.drop r.2) := rfl
  rw [hcall, hexec, Option.bind_some, if_pos hbounds, nread_stop hnread]
  rfl

/-- **A call that wants more** has taken its whole buffer. -/
theorem Comes.execute {s₁ : HttpResponseParser} (h : Comes buffer s p x text s₁)
    (htrack : track A x text = some y) :
    ∃ s', s.execute buffer false = some (s', buffer.length, []) ∧ s'.At y := by
  obtain ⟨s₂, hexec, hsound, hflag, -⟩ := exec_track (P := fun _ => True) []
    (fun _ _ _ _ _ _ _ => trivial) htrack h.sound h.chunked trivial h.length.le
  rw [List.append_nil, h.length] at hexec
  rw [h.length] at hsound
  have hend : s₁.exec buffer x.1 p text = some (s₂, y.1, buffer.length) := hexec
  have hbounds : (s₂.stop y.1 buffer.length).parser.inBounds buffer.length := by
    refine ⟨?_, ?_, hsound.mark_lt, hsound.field_len_le, hsound.field_start_lt⟩
    · rw [nread_stop hsound.nread]
    · exact hsound.body_start.trans_le (Nat.zero_le _)
  have hcall := execute_of_exec (h.exec.trans hend) hbounds hsound.nread
  rw [List.drop_length] at hcall
  exact ⟨_, hcall, rfl, hflag, hsound.error, hsound.body_start⟩

/-- **A call that finishes** leaves what is behind the line end. -/
theorem Comes.execute_done {P : HttpResponseParser → Prop} {s₁ : HttpResponseParser}
    {left : List UInt8} (hP : ∀ p a s s', A a = true → s.act buffer p a = some s' → P s → P s')
    (h : Comes buffer s p x (text ++ 10 :: left) s₁) (htrack : track A x text = some (3, b))
    (hPs : P s₁) :
    ∃ s₂ n, s.execute buffer false =
        some ((s₂.update ({ · with body_start := n })).stop 120 n, n, buffer.drop n) ∧
      n = p + text.length + 1 ∧ s₂.error = 0 ∧ s₂.parser.chunked = b ∧ P s₂ := by
  have hlength := h.length
  rw [List.length_append, List.length_cons] at hlength
  obtain ⟨s₂, hexec, hsound, hflag, hPs₂⟩ := exec_track (10 :: left) hP htrack h.sound
    h.chunked hPs (by omega)
  obtain ⟨n, hn⟩ : ∃ n, n = p + text.length + 1 := ⟨_, rfl⟩
  -- the line end leads to the final state, and leaves the loop
  have hlast : s₂.exec buffer 3 (p + text.length) (10 :: left) =
      some (s₂.update ({ · with body_start := n }), 120, n) := by
    rw [hn]
    rfl
  have hbounds :
      ((s₂.update ({ · with body_start := n })).stop 120 n).parser.inBounds buffer.length := by
    refine ⟨?_, ?_, hsound.mark_lt, hsound.field_len_le, hsound.field_start_lt⟩
    · have hnread : (s₂.stop 120 n).parser.nread = n := nread_stop hsound.nread
      exact hnread.trans_le (by omega)
    · change n ≤ buffer.length
      omega
  exact ⟨s₂, n, execute_of_exec ((h.exec.trans hexec).trans hlast) hbounds hsound.nread, hn,
    hsound.error, hflag, hPs₂⟩

end HttpResponseParser

end Http

end Sylar
