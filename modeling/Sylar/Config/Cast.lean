import Mathlib.Data.Finmap
import Mathlib.Data.Finset.Basic
import Sylar.Config.FromString
import Sylar.Config.Load
import Sylar.Foundation.SortedSet

/-!
# The conversions of containers

The conversions between a container and a string go through YAML: to a string, each element is
converted, its text is loaded as a node of its own, and the nodes are put into a sequence or a
mapping, which is written; from a string, the string is loaded, and each of its nodes is written and
converted. So an element is loaded and written twice on its way, and what is asked of the
conversion of the elements is that it gets over that.

YAML is a parameter, as are the conversions of the elements, which may be containers again.

## Main definitions

* `Yaml`, `LexicalCast`: what is used of YAML, and a pair of conversions
* `Container`, `Dictionary`: the containers, by their elements and by insertion
* `sequenceCast`, `dictionaryCast`: the conversions, with those of the six templates
* `Reads`: a value is read back from its text, and from what YAML makes of it

## Main results

* `containers_read`: what holds of the elements holds of each of the six containers
-/

namespace Sylar

open Foundation

namespace Config

/-- What is used of YAML: `Load`, the output operator, and the node that a mapping has at a number,
if any. -/
structure Yaml where
  load : List UInt8 → Except Exn Node
  emit : Node → List UInt8
  find : List (Node × Node) → ℕ → Option Node

/-- `LexicalCast<std::string, T>` and `LexicalCast<T, std::string>`. -/
structure LexicalCast (α : Type) where
  fromStr : List UInt8 → Except Exn α
  toStr : α → Except Exn (List UInt8)

namespace Node

def size : Node → ℕ
  | .null => 0
  | .scalar _ => 0
  | .sequence items => items.length
  | .map entries => entries.length

/-- What is written of `node[i]`, which is nothing if there is none. -/
def writeAt (y : Yaml) (i : ℕ) : Node → List UInt8
  | .sequence items => items[i]?.elim [] y.emit
  | .map entries => (y.find entries i).elim [] y.emit
  | .null => []
  | .scalar _ => []

/-- `push_back`, which makes a sequence of a new node. -/
def pushBack : Node → Node → Node
  | .sequence items, node => .sequence (items ++ [node])
  | _, node => .sequence [node]

/-- The entries with the value of one key set. -/
def assignEntry (key : List UInt8) (node : Node) : List (Node × Node) → List (Node × Node)
  | [] => [(.scalar key, node)]
  | (k, value) :: entries =>
    match k with
    | .scalar text =>
      if text = key then (k, node) :: entries else (k, value) :: assignEntry key node entries
    | _ => (k, value) :: assignEntry key node entries

/-- `node[key] = value`, which makes a mapping of a new node. -/
def assign (node : Node) (key : List UInt8) (value : Node) : Node :=
  match node with
  | .map entries => .map (assignEntry key value entries)
  | _ => .map [(.scalar key, value)]

end Node

/-! ## Containers -/

/-- A container: insertion at its end or where an element belongs, and its elements in the order of
the iterators, from which it can be built again. -/
structure Container (ι κ : Type) where
  empty : κ
  insert : κ → ι → κ
  items : κ → List ι
  rebuild : ∀ v, (items v).foldl insert empty = v

/-- A container of values with keys, each there once. -/
structure Dictionary (α κ : Type) extends Container (List UInt8 × α) κ where
  nodup : ∀ v, ((items v).map Prod.fst).Nodup

section Containers

variable {α : Type}

/-- `std::vector` and `std::list`. -/
def vector : Container α (List α) where
  empty := []
  insert v x := v ++ [x]
  items v := v
  rebuild v := by
    have h (w : List α) : v.foldl (fun v x => v ++ [x]) w = w ++ v := by
      induction v generalizing w with
      | nil => simp
      | cons x v ih => simp [ih]
    simpa using h []

/-- What is in a `std::set` or a `std::map`, in order. -/
structure Ordered (lt : α → α → Prop) where
  items : List α
  sorted : items.Pairwise lt

namespace Ordered

variable {lt : α → α → Prop}

@[ext] theorem ext {s t : Ordered lt} (h : s.items = t.items) : s = t := by
  cases s
  cases t
  congr

variable [DecidableRel lt] [IsStrictOrder α lt]

/-- `insert`, which leaves an element that is the same. -/
def insert (s : Ordered lt) (a : α) : Ordered lt where
  items := insertBy lt a s.items
  sorted := pairwise_insertBy (fun _ _ _ => trans_of lt) s.sorted

theorem foldl_insert (s : Ordered lt) (l : List α) :
    (l.foldl insert s).items = l.foldl (fun s a => insertBy lt a s) s.items := by
  induction l generalizing s with
  | nil => rfl
  | cons a l ih => exact ih (s.insert a)

theorem rebuild (s : Ordered lt) : s.items.foldl insert ⟨[], .nil⟩ = s := by
  ext1
  rw [foldl_insert]
  exact (foldl_insertBy (fun _ _ => asymm_of lt) (by simpa using s.sorted)).trans
    (List.nil_append _)

end Ordered

/-- `std::set`, by the order of its elements. -/
def orderedSet (lt : α → α → Prop) [DecidableRel lt] [IsStrictOrder α lt] :
    Container α (Ordered lt) where
  empty := ⟨[], .nil⟩
  insert := Ordered.insert
  items := Ordered.items
  rebuild := Ordered.rebuild

/-- The order of a `std::map`, by the keys. -/
def KeyLt (x y : List UInt8 × α) : Prop := x.1 < y.1

instance : DecidableRel (KeyLt (α := α)) := fun x y => inferInstanceAs (Decidable (x.1 < y.1))

instance : IsStrictOrder (List UInt8 × α) KeyLt where
  irrefl x := List.lt_irrefl x.1
  trans _ _ _ := List.lt_trans

/-- `std::map`. -/
def orderedMap : Dictionary α (Ordered (KeyLt (α := α))) where
  toContainer := orderedSet KeyLt
  nodup v := List.pairwise_map.mpr (v.sorted.imp fun {x y} h heq => by
    rw [KeyLt, heq] at h
    exact List.lt_irrefl _ h)

/-- `std::unordered_set`, by the order in which the iterators go through it. -/
def unorderedSet [DecidableEq α] (order : Finset α → List α)
    (h : ∀ s x, x ∈ order s ↔ x ∈ s) : Container α (Finset α) where
  empty := ∅
  insert s a := insert a s
  items := order
  rebuild s := by
    have hfold (l : List α) (t : Finset α) :
        l.foldl (fun s a => insert a s) t = t ∪ l.toFinset := by
      induction l generalizing t with
      | nil => simp
      | cons a l ih =>
        rw [List.foldl_cons, ih]
        simp [Finset.union_insert]
    rw [hfold]
    ext x
    simp [h]

/-- `insert`, which leaves a value that is there. -/
def insertNew (m : Finmap fun _ : List UInt8 => α) (x : List UInt8 × α) :
    Finmap fun _ : List UInt8 => α :=
  if x.1 ∈ m then m else m.insert x.1 x.2

theorem lookup_insertNew (m : Finmap fun _ : List UInt8 => α) (x : List UInt8 × α)
    (k : List UInt8) :
    (insertNew m x).lookup k = (m.lookup k).or (if x.1 = k then some x.2 else none) := by
  unfold insertNew
  by_cases hmem : x.1 ∈ m
  · rw [if_pos hmem]
    split_ifs with hk
    · obtain ⟨v, hv⟩ := Finmap.mem_iff.mp (hk ▸ hmem)
      simp [hv]
    · simp
  · rw [if_neg hmem]
    split_ifs with hk
    · subst hk
      simp [Finmap.lookup_insert, Finmap.lookup_eq_none.mpr hmem]
    · simp [Finmap.lookup_insert_of_ne _ (Ne.symm hk)]

theorem lookup_foldl_insertNew (l : List (List UInt8 × α)) (m : Finmap fun _ : List UInt8 => α)
    (k : List UInt8) :
    (l.foldl insertNew m).lookup k =
      (m.lookup k).or ((l.find? fun x => x.1 = k).map Prod.snd) := by
  induction l generalizing m with
  | nil => simp
  | cons x l ih =>
    rw [List.foldl_cons, ih, lookup_insertNew, Option.or_assoc]
    by_cases hk : x.1 = k <;> simp [hk]

/-- `std::unordered_map`, by the order in which the iterators go through it. -/
def unorderedMap (order : (Finmap fun _ : List UInt8 => α) → List (List UInt8 × α))
    (hnodup : ∀ m, ((order m).map Prod.fst).Nodup)
    (h : ∀ m k v, (k, v) ∈ order m ↔ m.lookup k = some v) :
    Dictionary α (Finmap fun _ : List UInt8 => α) where
  empty := ∅
  insert := insertNew
  items := order
  nodup := hnodup
  rebuild m := by
    refine Finmap.ext_lookup fun k => ?_
    rw [lookup_foldl_insertNew, Finmap.lookup_empty, Option.none_or]
    cases hfind : (order m).find? fun x => x.1 = k with
    | none =>
      symm
      rw [Option.map_none, Option.eq_none_iff_forall_ne_some]
      intro v hv
      have hno := List.find?_eq_none.mp hfind (k, v) ((h m k v).mpr hv)
      simp at hno
    | some x =>
      have hmem := (h m x.1 x.2).mp (List.mem_of_find?_eq_some hfind)
      have hk : x.1 = k := by simpa using List.find?_some hfind
      rw [Option.map_some, ← hmem, hk]

end Containers

/-! ## Conversions -/

section Conversions

variable {α κ : Type} (y : Yaml)

/-- The conversions of the containers that are sequences. -/
def sequenceCast (k : Container α κ) (c : LexicalCast α) : LexicalCast κ where
  fromStr str := do
    let node ← y.load str
    (List.range node.size).foldlM (fun vec i => do
      let x ← c.fromStr (node.writeAt y i)
      pure (k.insert vec x)) k.empty
  toStr v := do
    let node ← (k.items v).foldlM (fun node x => do
      let text ← c.toStr x
      let n ← y.load text
      pure (node.pushBack n)) Node.null
    pure (y.emit node)

/-- The conversions of the containers that are mappings. -/
def dictionaryCast (k : Dictionary α κ) (c : LexicalCast α) : LexicalCast κ where
  fromStr str := do
    let node ← y.load str
    match node with
    -- the iterators of a sequence have no keys
    | .sequence (_ :: _) => .error .std
    | _ =>
      node.entries.foldlM (fun vec e => do
        let x ← c.fromStr (y.emit e.2)
        pure (k.insert vec (e.1.text, x))) k.empty
  toStr v := do
    let node ← (k.items v).foldlM (fun node x => do
      let text ← c.toStr x.2
      let n ← y.load text
      pure (node.assign x.1 n)) Node.null
    pure (y.emit node)

/-- `LexicalCast` of `std::vector<T>`. -/
def vectorCast (c : LexicalCast α) : LexicalCast (List α) := sequenceCast y vector c

/-- `LexicalCast` of `std::list<T>`. -/
def listCast (c : LexicalCast α) : LexicalCast (List α) := sequenceCast y vector c

/-- `LexicalCast` of `std::set<T>`. -/
def setCast (lt : α → α → Prop) [DecidableRel lt] [IsStrictOrder α lt] (c : LexicalCast α) :
    LexicalCast (Ordered lt) := sequenceCast y (orderedSet lt) c

/-- `LexicalCast` of `std::unordered_set<T>`. -/
def unorderedSetCast [DecidableEq α] (order : Finset α → List α) (h : ∀ s x, x ∈ order s ↔ x ∈ s)
    (c : LexicalCast α) : LexicalCast (Finset α) := sequenceCast y (unorderedSet order h) c

/-- `LexicalCast` of `std::map<std::string, T>`. -/
def mapCast (c : LexicalCast α) : LexicalCast (Ordered (KeyLt (α := α))) :=
  dictionaryCast y orderedMap c

/-- `LexicalCast` of `std::unordered_map<std::string, T>`. -/
def unorderedMapCast (order : (Finmap fun _ : List UInt8 => α) → List (List UInt8 × α))
    (hnodup : ∀ m, ((order m).map Prod.fst).Nodup)
    (h : ∀ m k v, (k, v) ∈ order m ↔ m.lookup k = some v) (c : LexicalCast α) :
    LexicalCast (Finmap fun _ : List UInt8 => α) :=
  dictionaryCast y (unorderedMap order hnodup h) c

/-! ## Reading back -/

/-- A value is converted to a text that is converted back, as is what YAML writes of the node that
it loads from the text. -/
def Reads (c : LexicalCast α) (x : α) (n : Node) : Prop :=
  ∃ text, c.toStr x = .ok text ∧ c.fromStr text = .ok x ∧ y.load text = .ok n ∧
    c.fromStr (y.emit n) = .ok x

/-- YAML loads what it has written of a node. -/
def Yaml.Restores (n : Node) : Prop := y.load (y.emit n) = .ok n

/-- The node that `push_back` makes of nodes. -/
def Node.ofItems : List Node → Node
  | [] => .null
  | n :: ns => .sequence (n :: ns)

/-- The node that is made of keys and nodes. -/
def Node.ofEntries : List (List UInt8 × Node) → Node
  | [] => .null
  | e :: es => .map ((e :: es).map fun e => (.scalar e.1, e.2))

variable {y} {c : LexicalCast α} {n : Node}

theorem pushBack_ofItems (ns : List Node) (n : Node) :
    (Node.ofItems ns).pushBack n = .ofItems (ns ++ [n]) := by
  cases ns <;> rfl

/-- The loop that makes a sequence of the elements. -/
theorem foldlM_pushBack {xs : List α} {ns : List Node} (h : List.Forall₂ (Reads y c) xs ns)
    (pre : List Node) :
    xs.foldlM (fun node x => do
      let text ← c.toStr x
      let n ← y.load text
      pure (node.pushBack n)) (Node.ofItems pre) =
        (.ok (Node.ofItems (pre ++ ns)) : Except Exn Node) := by
  induction h generalizing pre with
  | nil => simp [pure, Except.pure]
  | @cons x n xs ns hx _ ih =>
    obtain ⟨text, htext, -, hload, -⟩ := hx
    rw [List.foldlM_cons]
    simp only [htext, hload, bind, Except.bind, pure, Except.pure, pushBack_ofItems]
    have := ih (pre ++ [n])
    simpa [bind, Except.bind, pure, Except.pure] using this

/-- The loop that inserts what is read of the texts. -/
theorem foldlM_insert {xs : List α} {ns : List Node} (h : List.Forall₂ (Reads y c) xs ns)
    (insert : κ → α → κ) (v : κ) :
    (ns.map y.emit).foldlM (fun vec text => do
      let x ← c.fromStr text
      pure (insert vec x)) v = (.ok (xs.foldl insert v) : Except Exn κ) := by
  induction h generalizing v with
  | nil => rfl
  | cons hx _ ih =>
    obtain ⟨-, -, -, -, hemit⟩ := hx
    rw [List.map_cons, List.foldlM_cons, hemit]
    exact ih _

theorem map_writeAt (ns : List Node) :
    (List.range (Node.ofItems ns).size).map (fun i => (Node.ofItems ns).writeAt y i) =
      ns.map y.emit := by
  cases ns with
  | nil => rfl
  | cons n ns =>
    apply List.ext_getElem
    · simp [Node.ofItems, Node.size]
    · intro i h _
      have hi : i < (n :: ns).length := by simpa [Node.ofItems, Node.size] using h
      rw [List.getElem_map, List.getElem_map, List.getElem_range]
      simp only [Node.ofItems, Node.writeAt, List.getElem?_eq_getElem hi, Option.elim_some]

theorem sequenceCast_fromStr {k : Container α κ} {v : κ} {ns : List Node} {str : List UInt8}
    (h : List.Forall₂ (Reads y c) (k.items v) ns) (hload : y.load str = .ok (Node.ofItems ns)) :
    (sequenceCast y k c).fromStr str = .ok v := by
  have hfold := foldlM_insert h k.insert k.empty
  rw [k.rebuild, ← map_writeAt, List.foldlM_map] at hfold
  simp only [sequenceCast, hload]
  exact hfold

theorem sequenceCast_toStr {k : Container α κ} {v : κ} {ns : List Node}
    (h : List.Forall₂ (Reads y c) (k.items v) ns) :
    (sequenceCast y k c).toStr v = .ok (y.emit (Node.ofItems ns)) := by
  have hfold := foldlM_pushBack h []
  simp only [sequenceCast]
  rw [show (Node.null) = Node.ofItems [] from rfl, hfold]
  rfl

/-- **Sequences are read back** if their elements are. -/
theorem sequenceCast_reads {k : Container α κ} {v : κ} {ns : List Node}
    (h : List.Forall₂ (Reads y c) (k.items v) ns) (hyaml : y.Restores (Node.ofItems ns)) :
    Reads y (sequenceCast y k c) v (Node.ofItems ns) :=
  ⟨_, sequenceCast_toStr h, sequenceCast_fromStr h hyaml, hyaml, sequenceCast_fromStr h hyaml⟩

/-- The keys of a mapping are those of the elements, and its values are read back. -/
def ReadsEntry (y : Yaml) (c : LexicalCast α) (x : List UInt8 × α) (e : List UInt8 × Node) : Prop :=
  e.1 = x.1 ∧ Reads y c x.2 e.2

theorem assignEntry_of_notMem {key : List UInt8} {pre : List (List UInt8 × Node)}
    (h : key ∉ pre.map Prod.fst) (n : Node) :
    Node.assignEntry key n (pre.map fun e => (.scalar e.1, e.2)) =
      (pre ++ [(key, n)]).map fun e => (.scalar e.1, e.2) := by
  induction pre with
  | nil => rfl
  | cons e pre ih =>
    simp only [List.map_cons, List.mem_cons, not_or] at h
    rw [List.map_cons, Node.assignEntry, if_neg (Ne.symm h.1), ih h.2]
    rfl

theorem assign_ofEntries {key : List UInt8} {pre : List (List UInt8 × Node)}
    (h : key ∉ pre.map Prod.fst) (n : Node) :
    (Node.ofEntries pre).assign key n = .ofEntries (pre ++ [(key, n)]) := by
  cases pre with
  | nil => rfl
  | cons e pre => exact congrArg Node.map (assignEntry_of_notMem h n)

/-- The loop that makes a mapping of the elements. -/
theorem foldlM_assign {xs : List (List UInt8 × α)} {es : List (List UInt8 × Node)}
    (h : List.Forall₂ (ReadsEntry y c) xs es) (pre : List (List UInt8 × Node))
    (hnodup : (pre.map Prod.fst ++ xs.map Prod.fst).Nodup) :
    xs.foldlM (fun node x => do
      let text ← c.toStr x.2
      let n ← y.load text
      pure (node.assign x.1 n)) (Node.ofEntries pre) =
        (.ok (Node.ofEntries (pre ++ es)) : Except Exn Node) := by
  induction h generalizing pre with
  | nil => simp [pure, Except.pure]
  | @cons x e xs es hx _ ih =>
    obtain ⟨hkey, text, htext, -, hload, -⟩ := hx
    have hmem : x.1 ∉ pre.map Prod.fst := fun hmem =>
      (List.nodup_append.mp hnodup).2.2 _ hmem _ (by simp) rfl
    rw [List.foldlM_cons]
    simp only [htext, hload, bind, Except.bind, pure, Except.pure, assign_ofEntries hmem]
    have := ih (pre ++ [(x.1, e.2)]) (by simpa using hnodup)
    rw [← hkey] at this ⊢
    simpa [bind, Except.bind, pure, Except.pure] using this

/-- The loop that inserts what is read of the entries. -/
theorem foldlM_insert_entries {xs : List (List UInt8 × α)} {es : List (List UInt8 × Node)}
    (h : List.Forall₂ (ReadsEntry y c) xs es) (insert : κ → List UInt8 × α → κ) (v : κ) :
    (es.map fun e => (Node.scalar e.1, e.2)).foldlM (fun vec e => do
      let x ← c.fromStr (y.emit e.2)
      pure (insert vec (e.1.text, x))) v = (.ok (xs.foldl insert v) : Except Exn κ) := by
  induction h generalizing v with
  | nil => rfl
  | cons hx _ ih =>
    obtain ⟨hkey, -, -, -, -, hemit⟩ := hx
    rw [List.map_cons, List.foldlM_cons, hemit, hkey]
    exact ih _

theorem dictionaryCast_fromStr {k : Dictionary α κ} {v : κ} {es : List (List UInt8 × Node)}
    {str : List UInt8} (h : List.Forall₂ (ReadsEntry y c) (k.items v) es)
    (hload : y.load str = .ok (Node.ofEntries es)) :
    (dictionaryCast y k c).fromStr str = .ok v := by
  have hfold := foldlM_insert_entries h k.insert k.empty
  rw [k.rebuild] at hfold
  simp only [dictionaryCast, hload]
  cases es with
  | nil => exact hfold
  | cons e es => exact hfold

theorem dictionaryCast_toStr {k : Dictionary α κ} {v : κ} {es : List (List UInt8 × Node)}
    (h : List.Forall₂ (ReadsEntry y c) (k.items v) es) :
    (dictionaryCast y k c).toStr v = .ok (y.emit (Node.ofEntries es)) := by
  have hfold := foldlM_assign h [] (by simpa using k.nodup v)
  simp only [dictionaryCast]
  rw [show (Node.null) = Node.ofEntries [] from rfl, hfold]
  rfl

/-- **Mappings are read back** if their values are. -/
theorem dictionaryCast_reads {k : Dictionary α κ} {v : κ} {es : List (List UInt8 × Node)}
    (h : List.Forall₂ (ReadsEntry y c) (k.items v) es) (hyaml : y.Restores (Node.ofEntries es)) :
    Reads y (dictionaryCast y k c) v (Node.ofEntries es) :=
  ⟨_, dictionaryCast_toStr h, dictionaryCast_fromStr h hyaml, hyaml,
    dictionaryCast_fromStr h hyaml⟩

/-- **Containers are read back**: for each of the six containers, of elements of any type, which may
be containers again, if the elements are read back, and YAML loads what it has written of the node
they make, the container is read back, from the text that it is converted to and from what YAML
writes of its node. -/
theorem containers_read (y : Yaml) (c : LexicalCast α) :
    (∀ v ns, List.Forall₂ (Reads y c) v ns → y.Restores (.ofItems ns) →
      Reads y (vectorCast y c) v (.ofItems ns) ∧ Reads y (listCast y c) v (.ofItems ns)) ∧
    (∀ (lt : α → α → Prop) [DecidableRel lt] [IsStrictOrder α lt] (v : Ordered lt) ns,
      List.Forall₂ (Reads y c) v.items ns → y.Restores (.ofItems ns) →
      Reads y (setCast y lt c) v (.ofItems ns)) ∧
    (∀ [DecidableEq α] (order : Finset α → List α) (h : ∀ s x, x ∈ order s ↔ x ∈ s) v ns,
      List.Forall₂ (Reads y c) (order v) ns → y.Restores (.ofItems ns) →
      Reads y (unorderedSetCast y order h c) v (.ofItems ns)) ∧
    (∀ (v : Ordered (KeyLt (α := α))) es, List.Forall₂ (ReadsEntry y c) v.items es →
      y.Restores (.ofEntries es) → Reads y (mapCast y c) v (.ofEntries es)) ∧
    (∀ (order : (Finmap fun _ : List UInt8 => α) → List (List UInt8 × α))
      (hnodup : ∀ m, ((order m).map Prod.fst).Nodup)
      (h : ∀ m k v, (k, v) ∈ order m ↔ m.lookup k = some v) v es,
      List.Forall₂ (ReadsEntry y c) (order v) es → y.Restores (.ofEntries es) →
      Reads y (unorderedMapCast y order hnodup h c) v (.ofEntries es)) := by
  refine ⟨fun v ns h hyaml => ⟨?_, ?_⟩, fun lt _ _ v ns h hyaml => ?_,
    fun order horder v ns h hyaml => ?_, fun v es h hyaml => ?_,
    fun order hnodup horder v es h hyaml => ?_⟩
  · exact sequenceCast_reads (k := vector) h hyaml
  · exact sequenceCast_reads (k := vector) h hyaml
  · exact sequenceCast_reads (k := orderedSet lt) h hyaml
  · exact sequenceCast_reads (k := unorderedSet order horder) h hyaml
  · exact dictionaryCast_reads (k := orderedMap) h hyaml
  · exact dictionaryCast_reads (k := unorderedMap order hnodup horder) h hyaml

end Conversions

/-- `boost::lexical_cast` of unsigned numbers, in decimal. -/
def decimalCast : LexicalCast ℕ where
  fromStr str := if str ≠ [] ∧ str.all isDigit then .ok (numeral str) else .error .std
  toStr n := .ok (bytes (toString n))

/-- YAML on the texts `1`, `2`, the sequence of the two, and the mapping of `a` to it. -/
def sampleYaml : Yaml where
  load str :=
    if str = bytes "1" then .ok (.scalar (bytes "1"))
    else if str = bytes "2" then .ok (.scalar (bytes "2"))
    else if str = bytes "- 1\n- 2" then .ok (.sequence [.scalar (bytes "1"), .scalar (bytes "2")])
    else if str = bytes "a:\n  - 1\n  - 2" then
      .ok (.map [(.scalar (bytes "a"), .sequence [.scalar (bytes "1"), .scalar (bytes "2")])])
    else .error .std
  emit
    | .scalar text => text
    | .sequence _ => bytes "- 1\n- 2"
    | .map _ => bytes "a:\n  - 1\n  - 2"
    | .null => bytes "~"
  find _ _ := none

/-- A mapping of `a` to the vector of 1 and 2. -/
theorem containers_read_sample :
    Reads sampleYaml (mapCast sampleYaml (vectorCast sampleYaml decimalCast))
      ⟨[(bytes "a", [1, 2])], List.pairwise_singleton _ _⟩
      (.ofEntries [(bytes "a", .ofItems [.scalar (bytes "1"), .scalar (bytes "2")])]) := by
  have hnumbers : List.Forall₂ (Reads sampleYaml decimalCast) [1, 2]
      [.scalar (bytes "1"), .scalar (bytes "2")] :=
    .cons ⟨bytes "1", rfl, rfl, rfl, rfl⟩ (.cons ⟨bytes "2", rfl, rfl, rfl, rfl⟩ .nil)
  have hvector := ((containers_read sampleYaml decimalCast).1 _ _ hnumbers rfl).1
  exact (containers_read sampleYaml (vectorCast sampleYaml decimalCast)).2.2.2.1 _ _
    (.cons ⟨rfl, hvector⟩ .nil) rfl

end Config

end Sylar
