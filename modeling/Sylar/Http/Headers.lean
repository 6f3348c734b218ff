import Mathlib.Data.List.Induction
import Sylar.Foundation.SortedMap
import Sylar.Http.Message

/-!
# The maps of a request

The headers, the parameters and the cookies of a request are maps whose keys are compared without
regard to the case of their letters. What a getter returns is the value that was set last under any
spelling of the key, whatever else has been set and removed in the three maps.

## Main definitions

* `delHeader`, `checkGetAs`, `getAs`: the operations of a map
* `RequestMaps`: the three maps of a request, with the functions of `HttpRequest` for them
* `lastSet`: the value that was set last

## Main results

* `setHeader_eq_put`, `findHeader_eq_lookup`, `delHeader_eq_remove`: the maps are ordered maps of
  folded keys
* `table_run`: what the maps are after any history
* `getters_lastSet`: what the getters return
-/

namespace Sylar

open Foundation

namespace Http

/-- `MapType`. -/
abbrev MapType := List (List UInt8 × List UInt8)

/-! ## The operations of a map -/

/-- `erase(key)`. -/
def delHeader (key : List UInt8) : MapType → MapType
  | [] => []
  | (k, v) :: rest =>
    if caseInsensitiveLess k key then (k, v) :: delHeader key rest
    else if caseInsensitiveLess key k then (k, v) :: rest
    else rest

/-- The value at a key as a `T`, and whether there is one; the default in its place. -/
def checkGetAs {T : Type} (lexicalCast : List UInt8 → Option T) (m : MapType) (key : List UInt8)
    (default : T) : Bool × T :=
  match findHeader key m with
  | none => (false, default)
  | some str =>
    match lexicalCast str with
    | some val => (true, val)
    | none => (false, default)

def getAs {T : Type} (lexicalCast : List UInt8 → Option T) (m : MapType) (key : List UInt8)
    (default : T) : T :=
  match findHeader key m with
  | none => default
  | some str => (lexicalCast str).getD default

section Ordered

variable (key val : List UInt8) (m : MapType)

theorem setHeader_eq_put : setHeader key val m = SortedMap.put foldCase key val m := by
  induction m with
  | nil => rfl
  | cons x m ih =>
    simp only [setHeader, SortedMap.put, caseInsensitiveLess_iff, ih]
    congr

theorem delHeader_eq_remove : delHeader key m = SortedMap.remove foldCase key m := by
  induction m with
  | nil => rfl
  | cons x m ih =>
    simp only [delHeader, SortedMap.remove, caseInsensitiveLess_iff, ih]
    congr

theorem findHeader_eq_lookup : findHeader key m = SortedMap.lookup foldCase key m := by
  induction m with
  | nil => rfl
  | cons x m ih =>
    simp only [findHeader, SortedMap.lookup, caseInsensitiveLess_iff, ih]
    congr

end Ordered

/-! ## The maps of a request -/

structure RequestMaps where
  headers : MapType := []
  params : MapType := []
  cookies : MapType := []
  deriving DecidableEq

/-- Which of the maps. -/
inductive Table
  | headers
  | params
  | cookies
  deriving DecidableEq

namespace RequestMaps

def getHeader (m : RequestMaps) (key default : List UInt8) : List UInt8 :=
  (findHeader key m.headers).getD default

def getParam (m : RequestMaps) (key default : List UInt8) : List UInt8 :=
  (findHeader key m.params).getD default

def getCookie (m : RequestMaps) (key default : List UInt8) : List UInt8 :=
  (findHeader key m.cookies).getD default

def setHeader (key val : List UInt8) (m : RequestMaps) : RequestMaps :=
  { m with headers := Http.setHeader key val m.headers }

def setParam (key val : List UInt8) (m : RequestMaps) : RequestMaps :=
  { m with params := Http.setHeader key val m.params }

def setCookie (key val : List UInt8) (m : RequestMaps) : RequestMaps :=
  { m with cookies := Http.setHeader key val m.cookies }

def delHeader (key : List UInt8) (m : RequestMaps) : RequestMaps :=
  { m with headers := Http.delHeader key m.headers }

def delParam (key : List UInt8) (m : RequestMaps) : RequestMaps :=
  { m with params := Http.delHeader key m.params }

def delCookie (key : List UInt8) (m : RequestMaps) : RequestMaps :=
  { m with cookies := Http.delHeader key m.cookies }

/-- Whether there is a value, and the value for the caller. -/
def hasHeader (m : RequestMaps) (key : List UInt8) : Bool × Option (List UInt8) :=
  ((findHeader key m.headers).isSome, findHeader key m.headers)

def hasParam (m : RequestMaps) (key : List UInt8) : Bool × Option (List UInt8) :=
  ((findHeader key m.params).isSome, findHeader key m.params)

def hasCookie (m : RequestMaps) (key : List UInt8) : Bool × Option (List UInt8) :=
  ((findHeader key m.cookies).isSome, findHeader key m.cookies)

/-- A call that changes one of the maps. -/
inductive Op
  | set (table : Table) (key val : List UInt8)
  | del (table : Table) (key : List UInt8)

def Op.table : Op → Table
  | .set t _ _ => t
  | .del t _ => t

def step (m : RequestMaps) : Op → RequestMaps
  | .set .headers key val => m.setHeader key val
  | .set .params key val => m.setParam key val
  | .set .cookies key val => m.setCookie key val
  | .del .headers key => m.delHeader key
  | .del .params key => m.delParam key
  | .del .cookies key => m.delCookie key

def run (m : RequestMaps) (ops : List Op) : RequestMaps := ops.foldl step m

def table (m : RequestMaps) : Table → MapType
  | .headers => m.headers
  | .params => m.params
  | .cookies => m.cookies

/-! ## Histories -/

/-- What a call does to a key of a map, if it does anything: it sets a value, or removes it. -/
def Op.at (table : Table) (key : List UInt8) : Op → Option (Option (List UInt8))
  | .set t k val => if t = table ∧ strcasecmp k key = true then some (some val) else none
  | .del t k => if t = table ∧ strcasecmp k key = true then some none else none

/-- **The value that was set last** under a key, if it has not been removed since. -/
def lastSet (table : Table) (key : List UInt8) (ops : List Op) : Option (List UInt8) :=
  (ops.reverse.findSome? (Op.at table key)).join

variable {m : RequestMaps} {t : Table} {key : List UInt8} {ops : List Op}

/-- All the maps are in order. -/
def Ordered (m : RequestMaps) : Prop := ∀ t, SortedMap.Ordered foldCase (m.table t)

/-- A call changes the map that it is for as an update. -/
theorem table_step (h : m.Ordered) (op : Op) : (m.step op).Ordered ∧
    ∀ t key, SortedMap.view foldCase ((m.step op).table t) (foldCase key) =
      (op.at t key).getD (SortedMap.view foldCase (m.table t) (foldCase key)) := by
  have hset : ∀ {n n' : MapType} {k val : List UInt8}, SortedMap.Ordered foldCase n →
      n' = Http.setHeader k val n → SortedMap.Ordered foldCase n' ∧
        ∀ key, SortedMap.view foldCase n' (foldCase key) =
          if strcasecmp k key = true then some val
          else SortedMap.view foldCase n (foldCase key) := by
    rintro n _ k val hn rfl
    rw [setHeader_eq_put]
    refine ⟨hn.put k val, fun key => ?_⟩
    obtain ⟨hself, hother⟩ := SortedMap.view_put hn k val (foldCase key)
    split_ifs with hsame
    · exact hself (by simpa [strcasecmp_eq] using hsame)
    · exact hother (by simpa [strcasecmp_eq] using hsame)
  have hdel : ∀ {n n' : MapType} {k : List UInt8}, SortedMap.Ordered foldCase n →
      n' = Http.delHeader k n → SortedMap.Ordered foldCase n' ∧
        ∀ key, SortedMap.view foldCase n' (foldCase key) =
          if strcasecmp k key = true then none else SortedMap.view foldCase n (foldCase key) := by
    rintro n _ k hn rfl
    rw [delHeader_eq_remove]
    refine ⟨hn.remove k, fun key => ?_⟩
    obtain ⟨hself, hother⟩ := SortedMap.view_remove hn k (foldCase key)
    split_ifs with hsame
    · exact hself (by simpa [strcasecmp_eq] using hsame)
    · exact hother (by simpa [strcasecmp_eq] using hsame)
  -- the map that the call is for, and the other two
  have hother : ∀ t', op.table ≠ t' → (m.step op).table t' = m.table t' := by
    intro t' hne
    cases op with
    | set t k val => cases t <;> cases t' <;> first | rfl | exact absurd rfl hne
    | del t k => cases t <;> cases t' <;> first | rfl | exact absurd rfl hne
  cases op with
  | set t k val =>
    have hown : (m.step (.set t k val)).table t = Http.setHeader k val (m.table t) := by
      cases t <;> rfl
    refine ⟨fun t' => ?_, fun t' key => ?_⟩
    · by_cases heq : t = t'
      · exact heq ▸ (hset (h t) hown).1
      · rw [hother t' heq]
        exact h t'
    · by_cases heq : t = t'
      · subst heq
        rw [(hset (h t) hown).2, Op.at]
        simp only [true_and]
        split_ifs <;> rfl
      · rw [hother t' heq, Op.at, if_neg fun hand => heq hand.1]
        rfl
  | del t k =>
    have hown : (m.step (.del t k)).table t = Http.delHeader k (m.table t) := by
      cases t <;> rfl
    refine ⟨fun t' => ?_, fun t' key => ?_⟩
    · by_cases heq : t = t'
      · exact heq ▸ (hdel (h t) hown).1
      · rw [hother t' heq]
        exact h t'
    · by_cases heq : t = t'
      · subst heq
        rw [(hdel (h t) hown).2, Op.at]
        simp only [true_and]
        split_ifs <;> rfl
      · rw [hother t' heq, Op.at, if_neg fun hand => heq hand.1]
        rfl

theorem ordered_new : ({} : RequestMaps).Ordered := by
  intro t
  cases t <;> exact List.Pairwise.nil

/-- **A history**: the maps are in order, and have the values that were set last. -/
theorem table_run (ops : List Op) : (run {} ops).Ordered ∧
    ∀ t key, findHeader key ((run {} ops).table t) = lastSet t key ops := by
  have hview : (run {} ops).Ordered ∧ ∀ t key,
      SortedMap.view foldCase ((run {} ops).table t) (foldCase key) = lastSet t key ops := by
    induction ops using List.reverseRecOn with
    | nil =>
      refine ⟨ordered_new, fun t key => ?_⟩
      cases t <;> rfl
    | append_singleton ops op ih =>
      have hstep := table_step ih.1 op
      rw [run, List.foldl_append, List.foldl_cons, List.foldl_nil]
      refine ⟨hstep.1, fun t key => (hstep.2 t key).trans ?_⟩
      rw [ih.2 t key, lastSet, lastSet, List.reverse_append, List.reverse_singleton,
        List.singleton_append, List.findSome?_cons]
      cases op.at t key <;> rfl
  refine ⟨hview.1, fun t key => ?_⟩
  rw [findHeader_eq_lookup, SortedMap.lookup_eq_view (hview.1 t), hview.2 t key]

end RequestMaps

/-- **What the getters return** after any history of calls: the value that was set last under any
spelling of the key, as a string or as what the cast makes of it. -/
theorem getters_lastSet {T : Type} (lexicalCast : List UInt8 → Option T) (d : T)
    (ops : List RequestMaps.Op) (key default : List UInt8) :
    let m := RequestMaps.run {} ops
    (∀ t, (m.table t).Pairwise Before) ∧
      (m.getHeader key default = (RequestMaps.lastSet .headers key ops).getD default ∧
        m.getParam key default = (RequestMaps.lastSet .params key ops).getD default ∧
        m.getCookie key default = (RequestMaps.lastSet .cookies key ops).getD default) ∧
      (m.hasHeader key = ((RequestMaps.lastSet .headers key ops).isSome,
          RequestMaps.lastSet .headers key ops) ∧
        m.hasParam key = ((RequestMaps.lastSet .params key ops).isSome,
          RequestMaps.lastSet .params key ops) ∧
        m.hasCookie key = ((RequestMaps.lastSet .cookies key ops).isSome,
          RequestMaps.lastSet .cookies key ops)) ∧
      ∀ t, getAs lexicalCast (m.table t) key d =
          ((RequestMaps.lastSet t key ops).bind lexicalCast).getD d ∧
        checkGetAs lexicalCast (m.table t) key d =
          (((RequestMaps.lastSet t key ops).bind lexicalCast).isSome,
            getAs lexicalCast (m.table t) key d) := by
  intro m
  obtain ⟨hordered, hfind⟩ := RequestMaps.table_run ops
  have hheaders : findHeader key m.headers = _ := hfind .headers key
  have hparams : findHeader key m.params = _ := hfind .params key
  have hcookies : findHeader key m.cookies = _ := hfind .cookies key
  refine ⟨hordered, ⟨?_, ?_, ?_⟩, ⟨?_, ?_, ?_⟩, fun t => ?_⟩
  · rw [RequestMaps.getHeader, hheaders]
  · rw [RequestMaps.getParam, hparams]
  · rw [RequestMaps.getCookie, hcookies]
  · rw [RequestMaps.hasHeader, hheaders]
  · rw [RequestMaps.hasParam, hparams]
  · rw [RequestMaps.hasCookie, hcookies]
  · unfold getAs checkGetAs
    rw [show findHeader key (m.table t) = _ from hfind t key]
    cases RequestMaps.lastSet t key ops with
    | none => exact ⟨rfl, rfl⟩
    | some str =>
      simp only [Option.bind_some, true_and]
      cases lexicalCast str <;> rfl

end Http

end Sylar
