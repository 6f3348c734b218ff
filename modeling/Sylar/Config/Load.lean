import Mathlib.Data.List.Basic
import Sylar.Foundation.Text

/-!
# Loading a tree of YAML

`LoadFromYaml` lists the nodes of a tree with their dotted paths and hands the text of each node to
the variable of its path. A path is checked before it is turned to lower case: the check knows
lower-case letters only, so that a key with another letter takes its whole subtree out of the list.

What the loop calls is a parameter, in any monad. The registered names are valid, since `Lookup`
throws for others.

## Main definitions

* `Node`: trees of YAML
* `listAllMember`, `loadFromYaml`: the two functions
* `Datas`, `Datas.lookup`: the registered variables
* `Node.nodes`, `dottedPath`, `addressed`: what a tree addresses

## Main results

* `listAllMember_eq`: the nodes with valid paths, in the order of the tree
* `loadFromYaml_eq`: the calls of the loop
* `loaded_iff`: where these are the ones that the tree addresses
-/

namespace Sylar

open Foundation

namespace Config

/-! ## Trees -/

/-- `YAML::Node`. A mapping keeps the order of its entries. -/
inductive Node
  | null
  | scalar (text : List UInt8)
  | sequence (items : List Node)
  | map (entries : List (Node × Node))

namespace Node

/-- `Scalar()`, which is empty for the other kinds. -/
def text : Node → List UInt8
  | .scalar text => text
  | _ => []

/-- The entries of a mapping. -/
def entries : Node → List (Node × Node)
  | .map entries => entries
  | _ => []

/-- What `fromString` is called with. `emit` is the output operator of `YAML::Node`. -/
def value (emit : Node → List UInt8) : Node → List UInt8
  | .scalar text => text
  | node => emit node

end Node

/-! ## Names -/

/-- `find_first_not_of(..) == npos`. The digit 9 is not in the list. -/
def isValid (name : List UInt8) : Bool :=
  name.all fun c => (bytes "abcdefghijklmnopqrstuvwxyz._012345678").contains c

def tolower (c : UInt8) : UInt8 := if 65 ≤ c ∧ c ≤ 90 then c + 32 else c

def isUpper (c : UInt8) : Bool := 65 ≤ c && c ≤ 90

/-- `s_datas`, with the type of each variable. -/
structure Datas (τ : Type*) where
  find : List UInt8 → Option τ
  valid : ∀ name, (find name).isSome → isValid name

namespace Datas

variable {τ : Type*}

def empty : Datas τ := ⟨fun _ => none, fun _ h => absurd h (by simp)⟩

def insert (d : Datas τ) (name : List UInt8) (type : τ) (h : isValid name) : Datas τ where
  find := Function.update d.find name (some type)
  valid := by
    intro other hother
    rcases eq_or_ne other name with rfl | hne
    · exact h
    · rw [Function.update_of_ne hne] at hother
      exact d.valid other hother

/-- `Lookup` with a default value: the variables after it, and whether it returns one. It throws for
an invalid name. -/
def lookup [DecidableEq τ] (d : Datas τ) (name : List UInt8) (type : τ) :
    Except (List UInt8) (Datas τ × Bool) :=
  match d.find name with
  -- a name that is taken by another type gives a null pointer
  | some other => .ok (d, other = type)
  | none => if h : isValid name then .ok (d.insert name type h, true) else .error name

/-- A name that was looked up is registered, and no other one is touched. -/
theorem find_of_lookup [DecidableEq τ] {d : Datas τ} {name : List UInt8} {type : τ}
    {r : Datas τ × Bool} (h : d.lookup name type = .ok r) :
    (r.1.find name).isSome ∧ ∀ other, other ≠ name → r.1.find other = d.find other := by
  unfold lookup at h
  split at h
  · rename_i other hfind
    cases h
    exact ⟨by rw [hfind]; rfl, fun _ _ => rfl⟩
  · split at h
    · rename_i hvalid
      cases h
      refine ⟨?_, fun other hne => Function.update_of_ne hne _ _⟩
      rw [show (d.insert name type hvalid).find name = some type from Function.update_self _ _ _]
      rfl
    · cases h

end Datas

/-! ## The two functions -/

mutual

def listAllMember (pre : List UInt8) (node : Node) : List (List UInt8 × Node) :=
  -- an invalid name is logged, and its members are not looked at
  if isValid pre then
    (pre, node) ::
      match node with
      | .map entries => listMembers pre entries
      | _ => []
  else []

/-- The loop over the entries of a mapping. -/
def listMembers (pre : List UInt8) : List (Node × Node) → List (List UInt8 × Node)
  | [] => []
  | (key, value) :: rest =>
    listAllMember (if pre.isEmpty then key.text else pre ++ bytes "." ++ key.text) value ++
      listMembers pre rest

end

section Loop

variable {τ : Type*} {m : Type → Type*} [Monad m]

def loadFromYaml (d : Datas τ) (emit : Node → List UInt8)
    (fromString : List UInt8 → List UInt8 → m Bool) (root : Node) : m Unit :=
  forM (listAllMember [] root) fun i => do
    if i.1.isEmpty then pure () else
      let key := i.1.map tolower
      match d.find key with
      -- keys that are not registered are passed over
      | none => pure ()
      | some _ => let _ ← fromString key (i.2.value emit)

end Loop

/-! ## What a tree addresses -/

mutual

/-- The nodes with the keys that lead to them, a mapping in front of its entries. The items of
sequences have no keys. -/
def Node.nodes (keys : List (List UInt8)) (node : Node) : List (List (List UInt8) × Node) :=
  (keys, node) ::
    match node with
    | .map entries => Node.entryNodes keys entries
    | _ => []

def Node.entryNodes (keys : List (List UInt8)) :
    List (Node × Node) → List (List (List UInt8) × Node)
  | [] => []
  | (key, value) :: rest => Node.nodes (keys ++ [key.text]) value ++ Node.entryNodes keys rest

end

/-- The keys with dots in between. Empty keys in front count for nothing. -/
def dottedPath (keys : List (List UInt8)) : List UInt8 :=
  (bytes ".").intercalate (keys.dropWhile List.isEmpty)

/-- The names of the variables that a tree addresses, with the texts for them. -/
def addressed {τ : Type*} (d : Datas τ) (emit : Node → List UInt8) (root : Node) :
    List (List UInt8 × List UInt8) :=
  (root.nodes []).filterMap fun x =>
    let name := (dottedPath x.1).map tolower
    if name ≠ [] ∧ (d.find name).isSome then some (name, x.2.value emit) else none

/-! ## Paths -/

section Paths

/-- The path of an entry, as the loop over the entries makes it. -/
theorem dottedPath_concat (keys : List (List UInt8)) (key : List UInt8) :
    dottedPath (keys ++ [key]) =
      if (dottedPath keys).isEmpty then key else dottedPath keys ++ bytes "." ++ key := by
  have happend {sep part : List UInt8} {parts : List (List UInt8)} (h : parts ≠ []) :
      sep.intercalate (parts ++ [part]) = sep.intercalate parts ++ sep ++ part := by
    induction parts with
    | nil => exact absurd rfl h
    | cons first parts ih =>
      cases parts with
      | nil => simp
      | cons second parts =>
        have ih := ih (List.cons_ne_nil _ _)
        simp only [List.cons_append, List.intercalate_cons_cons, List.append_assoc] at ih ⊢
        rw [ih]
  unfold dottedPath
  rw [List.dropWhile_append]
  cases h : keys.dropWhile List.isEmpty with
  | nil =>
    -- No key that counts in front of this one.
    cases key with
    | nil => rfl
    | cons c key => simp
  | cons first rest =>
    have hfirst : first ≠ [] := by
      intro hnil
      have hnot := List.head_dropWhile_not List.isEmpty
        (show keys.dropWhile List.isEmpty ≠ [] by rw [h]; exact List.cons_ne_nil _ _)
      simp only [h, List.head_cons, hnil, List.isEmpty_nil] at hnot
      exact Bool.noConfusion hnot
    obtain ⟨c, text, rfl⟩ := List.exists_cons_of_ne_nil hfirst
    rw [if_neg (by simp), happend (List.cons_ne_nil _ _),
      if_neg (by rw [List.intercalate_cons_cons_left]; simp)]

theorem isValid_append {front rest : List UInt8} :
    isValid (front ++ rest) ↔ isValid front ∧ isValid rest := by
  simp [isValid]

theorem isValid_of_concat {keys : List (List UInt8)} {key : List UInt8}
    (h : isValid (dottedPath (keys ++ [key]))) : isValid (dottedPath keys) := by
  rw [dottedPath_concat] at h
  split at h
  · rename_i hempty
    rw [List.isEmpty_iff.mp hempty]
    rfl
  · exact (isValid_append.mp (isValid_append.mp h).1).1

theorem nodes_eq (keys : List (List UInt8)) (node : Node) :
    node.nodes keys = (keys, node) :: Node.entryNodes keys node.entries := by
  cases node <;> rfl

theorem listAllMember_eq_cons {pre : List UInt8} (h : isValid pre) (node : Node) :
    listAllMember pre node = (pre, node) :: listMembers pre node.entries := by
  cases node <;> exact if_pos h

theorem listAllMember_eq_nil {pre : List UInt8} (h : ¬ isValid pre) (node : Node) :
    listAllMember pre node = [] := by
  cases node <;> exact if_neg h

mutual

/-- Below an invalid path there are no valid ones. -/
theorem isValid_of_mem_nodes (keys : List (List UInt8)) (node : Node) :
    ∀ x ∈ node.nodes keys, isValid (dottedPath x.1) → isValid (dottedPath keys) := by
  intro x hx hvalid
  rw [nodes_eq] at hx
  rcases List.mem_cons.mp hx with rfl | hx
  · exact hvalid
  · cases node with
    | map entries => exact isValid_of_mem_entryNodes keys entries x hx hvalid
    | null => exact absurd hx List.not_mem_nil
    | scalar text => exact absurd hx List.not_mem_nil
    | sequence items => exact absurd hx List.not_mem_nil

theorem isValid_of_mem_entryNodes (keys : List (List UInt8)) (entries : List (Node × Node)) :
    ∀ x ∈ Node.entryNodes keys entries, isValid (dottedPath x.1) →
      isValid (dottedPath keys) := by
  intro x hx hvalid
  cases entries with
  | nil => exact absurd hx List.not_mem_nil
  | cons entry rest =>
    obtain ⟨key, value⟩ := entry
    rw [Node.entryNodes] at hx
    rcases List.mem_append.mp hx with hx | hx
    · exact isValid_of_concat (isValid_of_mem_nodes (keys ++ [key.text]) value x hx hvalid)
    · exact isValid_of_mem_entryNodes keys rest x hx hvalid

end

mutual

/-- The nodes with valid paths, in the order of the tree. -/
theorem listAllMember_eq (keys : List (List UInt8)) (node : Node) :
    listAllMember (dottedPath keys) node =
      ((node.nodes keys).map fun x => (dottedPath x.1, x.2)).filter fun x => isValid x.1 := by
  by_cases hvalid : isValid (dottedPath keys)
  · rw [listAllMember_eq_cons hvalid, nodes_eq, List.map_cons, List.filter_cons,
      if_pos hvalid]
    cases node with
    | map entries => exact congrArg _ (listMembers_eq keys entries)
    | null => rfl
    | scalar text => rfl
    | sequence items => rfl
  · rw [listAllMember_eq_nil hvalid]
    symm
    rw [List.filter_eq_nil_iff]
    intro x hx hpath
    obtain ⟨y, hy, rfl⟩ := List.mem_map.mp hx
    exact hvalid (isValid_of_mem_nodes keys node y hy hpath)

theorem listMembers_eq (keys : List (List UInt8)) (entries : List (Node × Node)) :
    listMembers (dottedPath keys) entries =
      ((Node.entryNodes keys entries).map fun x => (dottedPath x.1, x.2)).filter
        fun x => isValid x.1 := by
  cases entries with
  | nil => rfl
  | cons entry rest =>
    obtain ⟨key, value⟩ := entry
    rw [listMembers, Node.entryNodes, List.map_append, List.filter_append, ← dottedPath_concat,
      listAllMember_eq (keys ++ [key.text]) value, listMembers_eq keys rest]

end

end Paths

/-! ## The calls -/

section Calls

variable {τ : Type*} (d : Datas τ) (emit : Node → List UInt8) (root : Node)

/-- The call for a node of the list. -/
def update (i : List UInt8 × Node) : Option (List UInt8 × List UInt8) :=
  let name := i.1.map tolower
  if name ≠ [] ∧ (d.find name).isSome then some (name, i.2.value emit) else none

/-- The calls of the loop. -/
theorem loadFromYaml_eq {m : Type → Type*} [Monad m] [LawfulMonad m]
    (fromString : List UInt8 → List UInt8 → m Bool) :
    loadFromYaml d emit fromString root =
      forM ((listAllMember [] root).filterMap (update d emit)) fun call =>
        fromString call.1 call.2 >>= fun _ => pure () := by
  unfold loadFromYaml
  induction listAllMember [] root with
  | nil => rfl
  | cons i rest ih =>
    rw [List.forM_cons, ih, List.filterMap_cons]
    by_cases hempty : i.1 = []
    · simp [update, hempty]
    · cases hfind : d.find (i.1.map tolower) with
      | none => simp [update, hempty, hfind]
      | some type => simp [update, hempty, hfind]

/-- A `fromString` that takes down what it is called with. -/
def record (key val : List UInt8) : StateM (List (List UInt8 × List UInt8)) Bool := do
  modify (· ++ [(key, val)])
  pure false

/-- What `LoadFromYaml` calls `fromString` with, call by call. -/
def calls : List (List UInt8 × List UInt8) :=
  ((loadFromYaml d emit record root).run []).2

theorem calls_eq : calls d emit root = (listAllMember [] root).filterMap (update d emit) := by
  have hrun (todo done : List (List UInt8 × List UInt8)) :
      ((forM todo fun call => record call.1 call.2 >>= fun _ => pure ()).run done).2 =
        done ++ todo := by
    induction todo generalizing done with
    | nil => exact (List.append_nil done).symm
    | cons call todo ih =>
      rw [List.forM_cons]
      exact (ih (done ++ [call])).trans (List.append_assoc done [call] todo)
  rw [calls, loadFromYaml_eq, hrun, List.nil_append]

theorem filterMap_filter_eq_iff {α β : Type*} {f : α → Option β} {p : α → Bool} {l : List α} :
    (l.filter p).filterMap f = l.filterMap f ↔ ∀ x ∈ l, (f x).isSome → p x := by
  induction l with
  | nil => simp
  | cons x l ih =>
    rw [List.forall_mem_cons, ← ih]
    cases hf : f x with
    | none => cases hp : p x <;> simp [hf, hp]
    | some y =>
      cases hp : p x with
      | true => simp [hf, hp]
      | false =>
        -- The result for `x` is missing, and there is none more for the others.
        have hle := ((List.filter_sublist (p := p) (l := l)).filterMap f).length_le
        refine iff_of_false (fun heq => ?_) (by simp)
        have hlen := congrArg List.length heq
        simp only [List.filter_cons, hp, Bool.false_eq_true, if_false, List.filterMap_cons, hf,
          List.length_cons] at hlen
        omega

/-- A path with a valid name is valid itself, but for its letters. -/
theorem isValid_iff_of_tolower {path : List UInt8} (h : isValid (path.map tolower)) :
    isValid path ↔ ∀ c ∈ path, ¬ isUpper c := by
  have hlower :
      ((bytes "abcdefghijklmnopqrstuvwxyz._012345678").all fun a => !isUpper a) = true := by
    decide +kernel
  have hbyte (c : UInt8)
      (hc : (bytes "abcdefghijklmnopqrstuvwxyz._012345678").contains (tolower c)) :
      (bytes "abcdefghijklmnopqrstuvwxyz._012345678").contains c ↔ ¬ isUpper c := by
    by_cases hupper : isUpper c
    · refine iff_of_false (fun hmem => ?_) (not_not_intro hupper)
      have hnot := List.all_eq_true.mp hlower c (List.contains_iff_mem.mp hmem)
      simp [hupper] at hnot
    · have hsame : tolower c = c := by
        rw [tolower, if_neg]
        simpa [isUpper] using hupper
      exact iff_of_true (hsame ▸ hc) hupper
  simp only [isValid, List.all_map, List.all_eq_true, Function.comp_apply] at h ⊢
  exact forall₂_congr fun c hc => hbyte c (h c hc)

/-- `LoadFromYaml` calls `fromString` on the variables that the tree addresses, in its order,
exactly if there are no upper-case letters in the paths that lead to them. -/
theorem loaded_iff :
    calls d emit root = addressed d emit root ↔
      ∀ x ∈ root.nodes [], (d.find ((dottedPath x.1).map tolower)).isSome →
        ∀ c ∈ dottedPath x.1, ¬ isUpper c := by
  have haddressed : addressed d emit root =
      ((root.nodes []).map fun x => (dottedPath x.1, x.2)).filterMap (update d emit) := by
    rw [List.filterMap_map]
    rfl
  have hlist := listAllMember_eq [] root
  rw [show dottedPath [] = [] from rfl] at hlist
  rw [calls_eq, haddressed, hlist, filterMap_filter_eq_iff, List.forall_mem_map]
  refine forall₂_congr fun x hx => ?_
  constructor
  · intro hkept hfind
    -- An empty path has no letters.
    rcases eq_or_ne (dottedPath x.1) [] with hempty | hne
    · rw [hempty]
      exact fun c hc => absurd hc List.not_mem_nil
    · rw [← isValid_iff_of_tolower (d.valid _ hfind)]
      exact hkept (by simp [update, hne, hfind])
  · intro hlower hcall
    have hfind : (d.find ((dottedPath x.1).map tolower)).isSome := by
      by_contra hnot
      simp [update, hnot] at hcall
    exact (isValid_iff_of_tolower (d.valid _ hfind)).mpr (hlower hfind)

/-- A key with an upper-case letter is dropped before it is turned to lower case. -/
theorem upper_case_dropped :
    let d := (Datas.empty : Datas Unit).insert (bytes "port") () (by decide +kernel)
    let root := Node.map [(.scalar (bytes "Port"), .scalar (bytes "80"))]
    calls d (fun _ => []) root = [] ∧
      addressed d (fun _ => []) root = [(bytes "port", bytes "80")] := by
  decide +kernel

end Calls

end Config

end Sylar
