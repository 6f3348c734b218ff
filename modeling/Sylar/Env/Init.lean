import Mathlib.Data.List.Basic
import Mathlib.Logic.Function.Basic

/-!
# The command line

`Env::init` reads keys and values: an argument with a dash in front is a key, any other one the
value of the key in front of it. The loop holds a key back until it knows whether a value follows,
and adds it without one in front of the next key and at the end.

## Main definitions

* `Env`, `Env.init`: the arguments, and the loop over the command line
* `Occurrence`, `spell`: a key with or without a value, and the command line of several of them
* `lastValue`: the value of the last occurrence of a key

## Main results

* `initLoop_spell`: the loop adds the occurrences of a command line one by one
* `exists_of_initLoop`: what it accepts is the command line of some
* `init_iff`: both, for `init`
-/

namespace Sylar

/-- `Env`, with `m_args` and `m_program`. -/
structure Env where
  args : List UInt8 → Option (List UInt8) := fun _ => none
  program : List UInt8 := []

namespace Env

def add (env : Env) (key val : List UInt8) : Env :=
  { env with args := Function.update env.args key (some val) }

def has (env : Env) (key : List UInt8) : Bool := (env.args key).isSome

def get (env : Env) (key default_val : List UInt8) : List UInt8 :=
  match env.args key with
  | some val => val
  | none => default_val

/-- `if(now_key) add(now_key, "")`. -/
def flush (env : Env) : Option (List UInt8) → Env
  | some key => env.add key []
  | none => env

/-- The loop over `argv`, with `now_key`. The byte 45 is the dash. -/
def initLoop (env : Env) (now_key : Option (List UInt8)) : List (List UInt8) → Env × Bool
  | [] => (env.flush now_key, true)
  | arg :: argv =>
    -- a dash starts a key; a key before it gets the empty value
    if arg.head? = some 45 then
      if 1 < arg.length then initLoop (env.flush now_key) (some arg.tail) argv
      -- A dash alone.
      else (env, false)
    else
      match now_key with
      | some key => initLoop (env.add key arg) none argv
      -- a value without a key
      | none => (env, false)

/-- `init` with `argv[0]` and the arguments behind it. -/
def init (env : Env) (program : List UInt8) (argv : List (List UInt8)) : Env × Bool :=
  initLoop { env with program } none argv

/-! ## The grammar -/

/-- A key, without its dash, and the value behind it. -/
structure Occurrence where
  key : List UInt8
  value : Option (List UInt8)
  key_ne_nil : key ≠ []
  value_head : ∀ val ∈ value, val.head? ≠ some 45

/-- `-key [value]`. -/
def Occurrence.spell (o : Occurrence) : List (List UInt8) := (45 :: o.key) :: o.value.toList

/-- `(-key [value])*`. -/
def spell (os : List Occurrence) : List (List UInt8) := os.flatMap Occurrence.spell

/-- The value of the last occurrence of a key, which is empty if this has none. -/
def lastValue (key : List UInt8) (os : List Occurrence) : Option (List UInt8) :=
  (os.reverse.find? (·.key = key)).map (·.value.getD [])

/-! ## The loop -/

section Loop

variable {env : Env} {now_key : Option (List UInt8)} {arg key : List UInt8}
  {argv : List (List UInt8)}

theorem initLoop_key (hkey : key ≠ []) :
    initLoop env now_key ((45 :: key) :: argv) = initLoop (env.flush now_key) (some key) argv := by
  have hlen : 1 < (45 :: key : List UInt8).length := by
    rw [List.length_cons]
    exact Nat.succ_lt_succ (List.length_pos_of_ne_nil hkey)
  rw [initLoop.eq_def]
  exact (if_pos rfl).trans (if_pos hlen)

theorem initLoop_value (harg : arg.head? ≠ some 45) :
    initLoop env (some key) (arg :: argv) = initLoop (env.add key arg) none argv := by
  rw [initLoop.eq_def]
  exact if_neg harg

/-- In front of the next key, and at the end, a key that was held back is added without a value. -/
theorem initLoop_flush (os : List Occurrence) :
    initLoop env (some key) (spell os) = initLoop (env.add key []) none (spell os) := by
  cases os with
  | nil => rfl
  | cons o os =>
    rw [spell, List.flatMap_cons, Occurrence.spell, List.cons_append, initLoop_key o.key_ne_nil,
      initLoop_key o.key_ne_nil]
    rfl

/-- What the loop does with a command line. -/
def addAll (env : Env) (os : List Occurrence) : Env :=
  os.foldl (fun env o => env.add o.key (o.value.getD [])) env

/-- The occurrences of a command line are added one by one. -/
theorem initLoop_spell (env : Env) (os : List Occurrence) :
    initLoop env none (spell os) = (env.addAll os, true) := by
  induction os generalizing env with
  | nil => rfl
  | cons o os ih =>
    rw [spell, List.flatMap_cons, Occurrence.spell, List.cons_append, initLoop_key o.key_ne_nil]
    cases hval : o.value with
    | none =>
      have hadd : env.addAll (o :: os) = (env.add o.key []).addAll os := by
        rw [addAll, List.foldl_cons, hval]
        rfl
      rw [hadd, ← ih]
      exact initLoop_flush os
    | some val =>
      have hadd : env.addAll (o :: os) = (env.add o.key val).addAll os := by
        rw [addAll, List.foldl_cons, hval]
        rfl
      rw [hadd, ← ih]
      exact initLoop_value (o.value_head val hval)

/-- What the loop accepts is a command line, with the key that it holds back in front. -/
theorem exists_of_initLoop (h : (initLoop env now_key argv).2 = true)
    (hkey : ∀ key ∈ now_key, key ≠ []) :
    ∃ os, spell os = now_key.toList.map (45 :: ·) ++ argv := by
  induction argv generalizing env now_key with
  | nil =>
    cases now_key with
    | none => exact ⟨[], rfl⟩
    | some key =>
      exact ⟨[⟨key, none, hkey key rfl, fun val hval => absurd hval (by simp)⟩], rfl⟩
  | cons arg argv ih =>
    rw [initLoop.eq_def] at h
    dsimp only at h
    split at h
    · rename_i hdash
      split at h
      · rename_i hlen
        -- The argument is a key, and is held back next.
        obtain ⟨next, rfl⟩ : ∃ next, arg = 45 :: next := by
          cases arg with
          | nil => cases hdash
          | cons c next => exact ⟨next, by rw [Option.some.inj hdash]⟩
        have hnext : next ≠ [] := by
          rintro rfl
          exact absurd hlen (by decide)
        obtain ⟨os, hos⟩ := ih h fun key hk => by rwa [← Option.some.inj hk]
        cases now_key with
        | none => exact ⟨os, hos⟩
        | some key =>
          refine ⟨⟨key, none, hkey key rfl, fun val hval => absurd hval (by simp)⟩ :: os, ?_⟩
          rw [spell, List.flatMap_cons, ← spell, hos]
          rfl
      · cases h
    · rename_i hdash
      cases now_key with
      | none => cases h
      | some key =>
        obtain ⟨os, hos⟩ := ih h fun key hk => absurd hk (by simp)
        refine ⟨⟨key, some arg, hkey key rfl, fun val hval => ?_⟩ :: os, ?_⟩
        · rwa [← Option.some.inj hval]
        · rw [spell, List.flatMap_cons, ← spell, hos]
          rfl

end Loop

/-! ## Values -/

theorem addAll_args (env : Env) (os : List Occurrence) (key : List UInt8) :
    (env.addAll os).args key = (lastValue key os).or (env.args key) := by
  induction os generalizing env with
  | nil => rfl
  | cons o os ih =>
    rw [show env.addAll (o :: os) = (env.add o.key (o.value.getD [])).addAll os from rfl, ih]
    unfold lastValue
    rw [List.reverse_cons, List.find?_append]
    cases os.reverse.find? (·.key = key) with
    | some last => rfl
    | none =>
      by_cases hkey : o.key = key
      · simp [add, hkey]
      · simp [add, hkey, Ne.symm hkey]

/-- What `get` gives after a command line. -/
theorem get_initLoop (env : Env) (os : List Occurrence) (key default_val : List UInt8) :
    (initLoop env none (spell os)).1.get key default_val =
      ((lastValue key os).or (env.args key)).getD default_val := by
  rw [initLoop_spell, get, addAll_args]
  cases (lastValue key os).or (env.args key) <;> rfl

/-- `init` accepts the command lines `(-key [value])*` and no others. Then each key has the value of
its last occurrence, and what was there for other keys is there as before. -/
theorem init_iff (env : Env) (program : List UInt8) (argv : List (List UInt8)) :
    ((env.init program argv).2 = true ↔ ∃ os, spell os = argv) ∧
      ∀ os, spell os = argv →
        ∀ key, (env.init program argv).1.args key = (lastValue key os).or (env.args key) := by
  refine ⟨⟨fun h => exists_of_initLoop h fun key hk => absurd hk (by simp), ?_⟩, ?_⟩
  · rintro ⟨os, rfl⟩
    rw [init, initLoop_spell]
  · rintro os rfl key
    rw [init, initLoop_spell]
    exact addAll_args _ os key

end Env

end Sylar
