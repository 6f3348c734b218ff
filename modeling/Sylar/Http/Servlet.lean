import Mathlib.Data.List.Induction
import Mathlib.Data.List.Nodup
import Mathlib.Logic.Function.Basic
import Sylar.Foundation.Text

/-!
# Dispatch to servlets

A dispatcher has a map from paths to servlets, a list of patterns with servlets, and a default. A
pattern that is registered again goes to the end of the list. `getMatchedServlet` is written out
along `getServlet` and `getGlobServlet`, which give a null pointer for a path that is not there.

Servlets are pointers, and a null pointer can be registered. `fnmatch` is a parameter.

## Main definitions

* `ServletDispatch`, `Op`, `run`: the dispatcher and its registrations
* `lastExact`, `surviving`: what a history of registrations leaves

## Main results

* `run_datas`, `run_globs`: the map and the list after a history
* `getMatchedServlet_eq_or_iff`: where the written-out lookup agrees with the two others
* `matched_iff`: the servlet of a path after a history
-/

namespace Sylar

namespace Http

/-- `ServletDispatch`. The pointers are `Option σ`, with `none` for null. -/
structure ServletDispatch (σ : Type*) where
  datas : List UInt8 → Option (Option σ) := fun _ => none
  globs : List (List UInt8 × Option σ) := []
  default : Option σ
  nodup : (globs.map Prod.fst).Nodup := by exact List.nodup_nil

namespace ServletDispatch

variable {σ : Type*}

/-! ## Registrations -/

/-- The loop that erases the first entry of a pattern. -/
def eraseGlob (globs : List (List UInt8 × Option σ)) (uri : List UInt8) :
    List (List UInt8 × Option σ) :=
  globs.eraseP (·.1 = uri)

section Erase

variable {globs : List (List UInt8 × Option σ)}

theorem eraseGlob_eq_filter (h : (globs.map Prod.fst).Nodup) (uri : List UInt8) :
    eraseGlob globs uri = globs.filter (·.1 ≠ uri) := by
  unfold eraseGlob
  induction globs with
  | nil => rfl
  | cons glob globs ih =>
    obtain ⟨hnot, hglobs⟩ := List.nodup_cons.mp h
    by_cases heq : glob.1 = uri
    · -- The pattern does not occur once more.
      have hrest : globs.filter (·.1 ≠ uri) = globs := by
        rw [List.filter_eq_self]
        intro other hother
        have hne : other.1 ≠ uri := by
          rintro rfl
          exact hnot (heq ▸ List.mem_map_of_mem hother)
        exact decide_eq_true hne
      rw [List.filter_cons, if_neg (by simpa using heq), hrest]
      exact List.eraseP_cons_of_pos (decide_eq_true heq)
    · rw [List.eraseP_cons, ih hglobs, List.filter_cons, if_pos (by simpa using heq)]
      simp [heq]

theorem nodup_eraseGlob (h : (globs.map Prod.fst).Nodup) (uri : List UInt8) :
    ((eraseGlob globs uri).map Prod.fst).Nodup :=
  h.sublist (List.eraseP_sublist.map Prod.fst)

theorem not_mem_eraseGlob (h : (globs.map Prod.fst).Nodup) (uri : List UInt8) :
    uri ∉ (eraseGlob globs uri).map Prod.fst := by
  rw [eraseGlob_eq_filter h]
  intro hmem
  obtain ⟨glob, hglob, rfl⟩ := List.mem_map.mp hmem
  simpa using (List.mem_filter.mp hglob).2

end Erase

/-- The overload for callbacks calls this one with a new `FunctionServlet`. -/
def addServlet (d : ServletDispatch σ) (uri : List UInt8) (slt : Option σ) : ServletDispatch σ :=
  { d with datas := Function.update d.datas uri (some slt) }

def addGlobServlet (d : ServletDispatch σ) (uri : List UInt8) (slt : Option σ) :
    ServletDispatch σ :=
  { d with
    globs := eraseGlob d.globs uri ++ [(uri, slt)]
    nodup := by
      rw [List.map_append, List.map_singleton]
      refine (nodup_eraseGlob d.nodup uri).append (List.nodup_singleton uri) ?_
      intro other hother hlast
      rw [List.mem_singleton.mp hlast] at hother
      exact not_mem_eraseGlob d.nodup uri hother }

def delServlet (d : ServletDispatch σ) (uri : List UInt8) : ServletDispatch σ :=
  { d with datas := Function.update d.datas uri none }

def delGlobServlet (d : ServletDispatch σ) (uri : List UInt8) : ServletDispatch σ :=
  { d with
    globs := eraseGlob d.globs uri
    nodup := nodup_eraseGlob d.nodup uri }

inductive Op (σ : Type*)
  | addServlet (uri : List UInt8) (slt : Option σ)
  | addGlobServlet (uri : List UInt8) (slt : Option σ)
  | delServlet (uri : List UInt8)
  | delGlobServlet (uri : List UInt8)

def step (d : ServletDispatch σ) : Op σ → ServletDispatch σ
  | .addServlet uri slt => d.addServlet uri slt
  | .addGlobServlet uri slt => d.addGlobServlet uri slt
  | .delServlet uri => d.delServlet uri
  | .delGlobServlet uri => d.delGlobServlet uri

/-- A dispatcher with nothing registered. -/
def new (default : Option σ) : ServletDispatch σ := { default }

def run (d : ServletDispatch σ) (ops : List (Op σ)) : ServletDispatch σ := ops.foldl step d

/-! ## Lookups -/

section Lookup

variable (fnmatch : List UInt8 → List UInt8 → Bool) (d : ServletDispatch σ) (uri : List UInt8)

def getServlet : Option σ :=
  match d.datas uri with
  | none => none
  | some slt => slt

/-- The loop over `m_globs`. -/
def getGlobServlet : Option σ :=
  match d.globs.find? (fun glob => fnmatch glob.1 uri) with
  | none => none
  | some glob => glob.2

def getMatchedServlet : Option σ :=
  match d.datas uri with
  | some slt => slt
  | none =>
    match d.globs.find? (fun glob => fnmatch glob.1 uri) with
    | some glob => glob.2
    | none => d.default

end Lookup

/-! ## Histories -/

/-- What a call does to the map at a path: a servlet or none, if it does anything. -/
def Op.onPath (uri : List UInt8) : Op σ → Option (Option (Option σ))
  | .addServlet other slt => if other = uri then some (some slt) else none
  | .delServlet other => if other = uri then some none else none
  | _ => none

/-- The servlet last registered for a path, if it was not deleted since. -/
def lastExact (uri : List UInt8) (ops : List (Op σ)) : Option (Option σ) :=
  (ops.reverse.findSome? (Op.onPath uri)).join

/-- The pattern that a call is about. -/
def Op.pattern : Op σ → Option (List UInt8)
  | .addGlobServlet uri _ => some uri
  | .delGlobServlet uri => some uri
  | _ => none

/-- The last registration of each pattern, in order, but for those deleted since. -/
def surviving : List (Op σ) → List (List UInt8 × Option σ)
  | [] => []
  | .addGlobServlet uri slt :: later =>
    if ∃ op ∈ later, op.pattern = some uri then surviving later
    else (uri, slt) :: surviving later
  | _ :: later => surviving later

theorem lastExact_concat (uri : List UInt8) (ops : List (Op σ)) (op : Op σ) :
    lastExact uri (ops ++ [op]) = (op.onPath uri).getD (lastExact uri ops) := by
  unfold lastExact
  rw [List.reverse_concat, List.findSome?_cons]
  cases op.onPath uri <;> rfl

theorem step_datas (d : ServletDispatch σ) (op : Op σ) (uri : List UInt8) :
    (d.step op).datas uri = (op.onPath uri).getD (d.datas uri) := by
  cases op with
  | addServlet other slt =>
    by_cases h : other = uri
    · simp [step, addServlet, Op.onPath, h]
    · simp [step, addServlet, Op.onPath, h, Ne.symm h]
  | delServlet other =>
    by_cases h : other = uri
    · simp [step, delServlet, Op.onPath, h]
    · simp [step, delServlet, Op.onPath, h, Ne.symm h]
  | addGlobServlet other slt => rfl
  | delGlobServlet other => rfl

theorem run_concat (d : ServletDispatch σ) (ops : List (Op σ)) (op : Op σ) :
    d.run (ops ++ [op]) = (d.run ops).step op := by
  rw [run, List.foldl_append]
  rfl

theorem run_default (d : ServletDispatch σ) (ops : List (Op σ)) :
    (d.run ops).default = d.default := by
  induction ops using List.reverseRecOn with
  | nil => rfl
  | append_singleton ops op ih =>
    rw [run_concat, ← ih]
    cases op <;> rfl

/-- The map: what the last call for a path left. -/
theorem run_datas (default : Option σ) (ops : List (Op σ)) (uri : List UInt8) :
    ((new default).run ops).datas uri = lastExact uri ops := by
  induction ops using List.reverseRecOn with
  | nil => rfl
  | append_singleton ops op ih => rw [run_concat, step_datas, ih, lastExact_concat]

/-- The entries of a list whose patterns no call is about. -/
def untouched (ops : List (Op σ)) (globs : List (List UInt8 × Option σ)) :
    List (List UInt8 × Option σ) :=
  globs.filter fun glob => ¬ ∃ op ∈ ops, op.pattern = some glob.1

theorem untouched_cons_none {op : Op σ} (h : op.pattern = none) (later : List (Op σ))
    (globs : List (List UInt8 × Option σ)) :
    untouched (op :: later) globs = untouched later globs :=
  List.filter_congr fun glob _ => by simp [h]

theorem untouched_cons_some {op : Op σ} {uri : List UInt8} (h : op.pattern = some uri)
    (later : List (Op σ)) {globs : List (List UInt8 × Option σ)}
    (hglobs : (globs.map Prod.fst).Nodup) :
    untouched (op :: later) globs = untouched later (eraseGlob globs uri) := by
  rw [eraseGlob_eq_filter hglobs, untouched, untouched, List.filter_filter]
  refine List.filter_congr fun glob _ => ?_
  rw [← Bool.decide_and, decide_eq_decide, List.exists_mem_cons_iff, h, Option.some_inj, not_or,
    and_comm, eq_comm]

/-- The list: what was there and is not touched, then the registrations that survive. -/
theorem run_globs (d : ServletDispatch σ) (ops : List (Op σ)) :
    (d.run ops).globs = untouched ops d.globs ++ surviving ops := by
  induction ops generalizing d with
  | nil => simp [run, surviving, untouched]
  | cons op later ih =>
    rw [show d.run (op :: later) = (d.step op).run later from rfl, ih]
    cases op with
    | addServlet uri slt =>
      rw [untouched_cons_none rfl]
      rfl
    | delServlet uri =>
      rw [untouched_cons_none rfl]
      rfl
    | delGlobServlet uri =>
      rw [untouched_cons_some rfl later d.nodup]
      rfl
    | addGlobServlet uri slt =>
      rw [untouched_cons_some rfl later d.nodup, surviving]
      have hlast : untouched later [(uri, slt)] =
          if ∃ op ∈ later, op.pattern = some uri then [] else [(uri, slt)] := by
        rw [untouched, List.filter_singleton]
        by_cases h : ∃ op ∈ later, op.pattern = some uri <;> simp [h]
      have happend : untouched later (d.addGlobServlet uri slt).globs =
          untouched later (eraseGlob d.globs uri) ++ untouched later [(uri, slt)] :=
        List.filter_append _ _
      rw [step, happend, hlast, List.append_assoc]
      split <;> rfl

/-! ## The servlet of a path -/

section Matched

variable (fnmatch : List UInt8 → List UInt8 → Bool)

/-- The servlet of the first pattern that matches. -/
def firstMatch (uri : List UInt8) (globs : List (List UInt8 × Option σ)) : Option (Option σ) :=
  (globs.find? fun glob => fnmatch glob.1 uri).map Prod.snd

variable (d : ServletDispatch σ) (uri : List UInt8)

theorem getServlet_eq : d.getServlet uri = (d.datas uri).join := by
  unfold getServlet
  cases d.datas uri <;> rfl

theorem getGlobServlet_eq :
    d.getGlobServlet fnmatch uri = (firstMatch fnmatch uri d.globs).join := by
  unfold getGlobServlet firstMatch
  cases d.globs.find? _ <;> rfl

theorem getMatchedServlet_eq :
    d.getMatchedServlet fnmatch uri =
      ((d.datas uri).or (firstMatch fnmatch uri d.globs)).getD d.default := by
  unfold getMatchedServlet firstMatch
  cases d.datas uri with
  | some slt => rfl
  | none => cases d.globs.find? _ <;> rfl

/-- The written-out lookup gives what the others give in turn, unless it meets a null pointer that
they pass over. -/
theorem getMatchedServlet_eq_or_iff :
    d.getMatchedServlet fnmatch uri =
        ((d.getServlet uri).or (d.getGlobServlet fnmatch uri)).or d.default ↔
      ((d.datas uri).or (firstMatch fnmatch uri d.globs) = some none →
        (firstMatch fnmatch uri d.globs).join = none ∧ d.default = none) := by
  rw [getMatchedServlet_eq, getServlet_eq, getGlobServlet_eq]
  rcases d.datas uri with - | - | slt
  · rcases firstMatch fnmatch uri d.globs with - | - | slt
    · simp
    · simp [eq_comm]
    · simp
  · rcases firstMatch fnmatch uri d.globs with - | - | slt
    · simp [eq_comm]
    · simp [eq_comm]
    · simp
  · simp

/-- After every history a path has the servlet last registered for it, or that of the first pattern
that matches, or the default, and no pattern is in the list twice. `getServlet`, `getGlobServlet`
and `getDefault` in turn give the same one, exactly if the registration that decides is no null
pointer in front of a servlet. -/
theorem matched_iff (default : Option σ) (ops : List (Op σ)) :
    let d := (new default).run ops
    let glob := firstMatch fnmatch uri (surviving ops)
    d.getMatchedServlet fnmatch uri = ((lastExact uri ops).or glob).getD default ∧
      (d.globs.map Prod.fst).Nodup ∧
      (d.getMatchedServlet fnmatch uri =
          ((d.getServlet uri).or (d.getGlobServlet fnmatch uri)).or d.default ↔
        ((lastExact uri ops).or glob = some none → glob.join = none ∧ default = none)) := by
  intro d glob
  have hdefault : d.default = default := run_default _ ops
  have hdatas : d.datas uri = lastExact uri ops := run_datas default ops uri
  have hglobs : d.globs = surviving ops := run_globs (new default) ops
  refine ⟨?_, d.nodup, ?_⟩
  · rw [getMatchedServlet_eq, hdatas, hglobs, hdefault]
  · rw [getMatchedServlet_eq_or_iff, hdatas, hglobs, hdefault]

/-- A null pointer that is registered for a path hides the default. -/
theorem null_hides_default :
    let d := (new (some 404)).run [.addServlet (Foundation.bytes "/a") none]
    d.getMatchedServlet (· = ·) (Foundation.bytes "/a") = none ∧
      ((d.getServlet (Foundation.bytes "/a")).or
        (d.getGlobServlet (· = ·) (Foundation.bytes "/a"))).or d.default = some 404 := by
  decide

end Matched

end ServletDispatch

end Http

end Sylar
