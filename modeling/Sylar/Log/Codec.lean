import Sylar.Foundation.SortedSet
import Sylar.Log.Model

/-!
# The log configuration as text

The two `LexicalCast`s between a set of `LogDefine`s and YAML text go through trees of nodes, field
by field. They do not agree on the fields. The encoder writes the formatter of a logger when it is
empty, and leaves it out otherwise; it spells the type of an appender to the standard output in a
way that the decoder does not know; and the level of an appender, which it does write, is read by
nobody.

A node that a subscript does not find is undefined. A subscript of a scalar, and a conversion of
anything but a scalar, throws.

## Main definitions

* `Node`, `Yaml`: the trees, and the library that prints and loads them
* `LogDefine.encode`, `encode`, `lexicalCastToString`: the encoder
* `decodeDefine`, `decode`, `lexicalCastFromString`: the decoder
* `LogDefine.Kept`: the defines that both sides agree on

## Main results

* `decodeAppender_encode`, `decodeDefine_encode`: what comes back of an appender and of a define
* `roundTrip_iff`: a set comes back exactly if every define in it is of that kind
-/

namespace Sylar

open Foundation

namespace Log

/-! ## Nodes -/

inductive Node
  | null
  | scalar (s : List UInt8)
  | seq (items : List Node)
  | map (entries : List (String × Node))

namespace Node

/-- `n[key]`: undefined is `some none`, and a scalar throws. -/
def get (n : Node) (key : String) : Option (Option Node) :=
  match n with
  | scalar _ => none
  | map entries => some (entries.lookup key)
  | null | seq _ => some none

/-- `as<std::string>()`. -/
def asString : Node → Option (List UInt8)
  | scalar s => some s
  | null | seq _ | map _ => none

/-- `n[key].as<std::string>()`, if it is defined. -/
def getString (n : Node) (key : String) : Option (Option (List UInt8)) :=
  (n.get key).bind fun
    | none => some none
    | some v => v.asString.map some

/-- The nodes `n[i]` with `i < n.size()`. -/
def items : Node → List Node
  | seq items => items
  | null | scalar _ | map _ => []

/-- A node that is assigned entry by entry. -/
def ofEntries (entries : List (String × Node)) : Node :=
  if entries.isEmpty then null else map entries

/-- A node that is pushed to element by element. -/
def ofItems (items : List Node) : Node := if items.isEmpty then null else seq items

end Node

/-- `operator<<` of a node, and `YAML::Load`, which may throw. -/
structure Yaml where
  emit : Node → List UInt8
  load : List UInt8 → Option Node

/-! ## The encoder -/

def LogAppenderDefine.encode (a : LogAppenderDefine) : Node :=
  .ofEntries <|
    (if a.type = 1 then
      [("type", .scalar (bytes "FileLogAppender")), ("file", .scalar a.file)]
    -- written `StdoutLoaAppender`, which the decoder does not know
    else if a.type = 2 then [("type", .scalar (bytes "StdoutLoaAppender"))] else []) ++
    (if a.level ≠ .UNKNOW then [("level", .scalar a.level.toString)] else []) ++
    (if a.formatter ≠ [] then [("formatter", .scalar a.formatter)] else [])

def LogDefine.encode (d : LogDefine) : Node :=
  .ofEntries <|
    [("name", .scalar d.name)] ++
    (if d.level ≠ .UNKNOW then [("level", .scalar d.level.toString)] else []) ++
    -- the test is the wrong way round
    (if d.formatter = [] then [("formatter", .scalar d.formatter)] else []) ++
    (if d.appenders ≠ [] then
      [("appenders", .ofItems (d.appenders.map LogAppenderDefine.encode))] else [])

def encode (v : LogDefines) : Node := .ofItems (v.list.map LogDefine.encode)

/-- `LexicalCast<std::set<LogDefine>, std::string>`. -/
def lexicalCastToString (yaml : Yaml) (v : LogDefines) : List UInt8 := yaml.emit (encode v)

/-! ## The decoder -/

/-- An appender; one that is reported and left out is `some none`. -/
def decodeAppender (a : Node) : Option (Option LogAppenderDefine) := do
  match ← a.getString "type" with
  | none => return none
  | some type =>
    if type = bytes "FileLogAppender" then
      match ← a.getString "file" with
      | none => return none
      | some file =>
        let formatter ← a.getString "formatter"
        return some { type := 1, file := file, formatter := formatter.getD [] }
    -- the formatter is not read here
    else if type = bytes "StdoutLogAppender" then return some { type := 2 }
    else return none

/-- A define; one without a name is reported and left out. -/
def decodeDefine (n : Node) : Option (Option LogDefine) := do
  match ← n.getString "name" with
  | none => return none
  | some name =>
    let level ← n.getString "level"
    let formatter ← n.getString "formatter"
    let appenders ← n.get "appenders"
    let lads ← ((appenders.map Node.items).getD []).mapM decodeAppender
    return some
      { name := name
        level := .fromString (level.getD [])
        formatter := formatter.getD []
        appenders := lads.filterMap id }

/-- The set with the elements of a list; one whose name is there already is not inserted. -/
def LogDefines.ofList (l : List LogDefine) : LogDefines where
  list := l.foldl (fun vec ld => insertBy LogDefine.lt ld vec) []
  sorted := List.foldlRecOn l _ List.Pairwise.nil fun _ h _ _ =>
    pairwise_insertBy (fun _ _ _ => List.lt_trans) h

def decode (node : Node) : Option LogDefines :=
  (node.items.mapM decodeDefine).map fun defines => .ofList (defines.filterMap id)

/-- `LexicalCast<std::string, std::set<LogDefine>>`. -/
def lexicalCastFromString (yaml : Yaml) (v : List UInt8) : Option LogDefines :=
  (yaml.load v).bind decode

/-! ## What comes back -/

/-- What comes back of an appender. -/
def LogAppenderDefine.reload (a : LogAppenderDefine) : Option LogAppenderDefine :=
  if a.type = 1 then some { type := 1, file := a.file, formatter := a.formatter } else none

/-- What comes back of a define. -/
def LogDefine.reload (d : LogDefine) : LogDefine where
  name := d.name
  level := .fromString d.level.toString
  appenders := d.appenders.filterMap LogAppenderDefine.reload

theorem Node.get_ofEntries {entries : List (String × Node)} (key : String) (h : entries ≠ []) :
    (Node.ofEntries entries).get key = some (entries.lookup key) := by
  rw [Node.ofEntries, if_neg (by simpa using h), Node.get]

theorem Node.getString_ofEntries {entries : List (String × Node)} (key : String)
    (h : entries ≠ []) : (Node.ofEntries entries).getString key =
      match entries.lookup key with
      | none => some none
      | some v => v.asString.map some := by
  rw [Node.getString, Node.get_ofEntries key h, Option.bind_some]

theorem Node.getString_nil (key : String) : (Node.ofEntries []).getString key = some none := rfl

/-- The decoder reads what the encoder writes of a file appender, but for its level. -/
theorem decodeAppender_file {a : LogAppenderDefine} (h : a.type = 1) :
    decodeAppender a.encode =
      some (some { type := 1, file := a.file, formatter := a.formatter }) := by
  unfold LogAppenderDefine.encode decodeAppender
  by_cases hlevel : a.level = .UNKNOW <;> by_cases hformatter : a.formatter = [] <;>
    simp [Node.getString_ofEntries, h, hlevel, hformatter, List.lookup_cons, Node.asString]

/-- The name that the encoder has for the standard output is no name to the decoder. -/
theorem decodeAppender_stdout {a : LogAppenderDefine} (h : a.type = 2) :
    decodeAppender a.encode = some none := by
  have hfile : bytes "StdoutLoaAppender" ≠ bytes "FileLogAppender" := by decide
  have hout : bytes "StdoutLoaAppender" ≠ bytes "StdoutLogAppender" := by decide
  unfold LogAppenderDefine.encode decodeAppender
  by_cases hlevel : a.level = .UNKNOW <;> by_cases hformatter : a.formatter = [] <;>
    simp [Node.getString_ofEntries, h, hlevel, hformatter, List.lookup_cons, Node.asString, hfile,
      hout]

theorem decodeAppender_other {a : LogAppenderDefine} (hfile : a.type ≠ 1) (hout : a.type ≠ 2) :
    decodeAppender a.encode = some none := by
  unfold LogAppenderDefine.encode decodeAppender
  by_cases hlevel : a.level = .UNKNOW <;> by_cases hformatter : a.formatter = [] <;>
    simp [Node.getString_ofEntries, Node.getString_nil, hfile, hout, hlevel, hformatter,
      List.lookup_cons]

theorem decodeAppender_encode (a : LogAppenderDefine) :
    decodeAppender a.encode = some a.reload := by
  unfold LogAppenderDefine.reload
  split_ifs with hfile
  · exact decodeAppender_file hfile
  · by_cases hout : a.type = 2
    · exact decodeAppender_stdout hout
    · exact decodeAppender_other hfile hout

theorem mapM_decodeAppender (l : List LogAppenderDefine) :
    l.mapM (decodeAppender ∘ LogAppenderDefine.encode) = some (l.map LogAppenderDefine.reload) := by
  induction l with
  | nil => rfl
  | cons a l ih => simp [List.mapM_cons, decodeAppender_encode, ih]

theorem fromString_toString_unknow : Level.fromString (Level.toString .UNKNOW) = .UNKNOW := by
  decide

theorem items_ofItems (items : List Node) : (Node.ofItems items).items = items := by
  cases items <;> rfl

theorem decodeDefine_encode (d : LogDefine) : decodeDefine d.encode = some (some d.reload) := by
  have hunknow : Level.fromString [] = .UNKNOW := by decide
  unfold LogDefine.encode decodeDefine LogDefine.reload
  by_cases hlevel : d.level = .UNKNOW <;> by_cases hformatter : d.formatter = [] <;>
    by_cases happenders : d.appenders = [] <;>
    simp [Node.getString_ofEntries, Node.get_ofEntries, hlevel, hformatter, happenders,
      List.lookup_cons, Node.asString, items_ofItems, mapM_decodeAppender,
      fromString_toString_unknow, hunknow]

theorem mapM_decodeDefine (l : List LogDefine) :
    (l.map LogDefine.encode).mapM decodeDefine = some (l.map fun d => some d.reload) := by
  induction l with
  | nil => rfl
  | cons d l ih => simp [List.mapM_cons, decodeDefine_encode, ih]

/-- **What comes back of a set**, define by define. -/
theorem decode_encode (v : LogDefines) :
    (decode (encode v)).map LogDefines.list = some (v.list.map LogDefine.reload) := by
  have hsorted : (v.list.map LogDefine.reload).Pairwise LogDefine.lt :=
    List.pairwise_map.mpr v.sorted
  have hsome : (v.list.map fun d => some d.reload).filterMap id = v.list.map LogDefine.reload := by
    rw [List.filterMap_map, ← List.filterMap_eq_map]
    rfl
  rw [decode, encode, items_ofItems, mapM_decodeDefine, Option.map_some, Option.map_some, hsome]
  exact congrArg some (foldl_insertBy LogDefine.lt_asymm hsorted)

/-! ## The round trip -/

/-- What both sides agree on: a define without a formatter, with one of the named levels, whose
appenders all write to files and have no level. -/
def LogDefine.Kept (d : LogDefine) : Prop :=
  d.formatter = [] ∧
    d.level ∈ [Level.UNKNOW, .DEBUG, .INFO, .WARN, .ERROR, .FATAL] ∧
    ∀ a ∈ d.appenders, a.type = 1 ∧ a.level = .UNKNOW

/-- The levels with a name of their own are those that their names give back. -/
theorem fromString_toString_iff (level : Level) : Level.fromString level.toString = level ↔
    level ∈ [Level.UNKNOW, .DEBUG, .INFO, .WARN, .ERROR, .FATAL] := by
  constructor
  · intro h
    rw [← h]
    unfold Level.toString
    split_ifs <;> decide
  · intro h
    simp only [List.mem_cons, List.not_mem_nil, or_false] at h
    rcases h with rfl | rfl | rfl | rfl | rfl | rfl <;> decide

theorem reload_appender_iff (a : LogAppenderDefine) :
    a.reload = some a ↔ a.type = 1 ∧ a.level = .UNKNOW := by
  obtain ⟨type, level, formatter, file⟩ := a
  unfold LogAppenderDefine.reload
  split_ifs with h
  · simp_all [eq_comm]
  · simp_all

/-- A filter that gives the list back gives each element back. -/
theorem filterMap_eq_self {α : Type*} {f : α → Option α} {l : List α} :
    l.filterMap f = l ↔ ∀ a ∈ l, f a = some a := by
  induction l with
  | nil => simp
  | cons a l ih =>
    rw [List.forall_mem_cons, List.filterMap_cons]
    cases hf : f a with
    | none =>
      -- a list does not get longer
      have hlen := List.length_filterMap_le f l
      constructor
      · intro h
        change l.filterMap f = a :: l at h
        rw [h, List.length_cons] at hlen
        omega
      · rintro ⟨⟨⟩, -⟩
    | some b => rw [List.cons_eq_cons, ih, Option.some.injEq]

theorem reload_iff (d : LogDefine) : d.reload = d ↔ d.Kept := by
  rw [LogDefine.Kept, ← fromString_toString_iff]
  obtain ⟨name, level, formatter, appenders⟩ := d
  simp only [LogDefine.reload, LogDefine.mk.injEq, true_and, filterMap_eq_self,
    reload_appender_iff, @eq_comm (List UInt8) []]
  tauto

/-- **The codec of the configuration.** When the library loads what it has printed, a set of
defines comes back equal exactly if each of them is kept by both sides. -/
theorem roundTrip_iff (yaml : Yaml) (v : LogDefines)
    (hyaml : yaml.load (yaml.emit (encode v)) = some (encode v)) :
    lexicalCastFromString yaml (lexicalCastToString yaml v) = some v ↔ ∀ d ∈ v.list, d.Kept := by
  have hdecode := decode_encode v
  rw [Option.map_eq_some_iff] at hdecode
  obtain ⟨w, hw, hlist⟩ := hdecode
  have hmap : v.list.map LogDefine.reload = v.list ↔ ∀ d ∈ v.list, d.reload = d :=
    ⟨fun h d hd => List.map_inj_left.mp (h.trans (List.map_id _).symm) d hd,
      fun h => (List.map_congr_left h).trans (List.map_id _)⟩
  rw [lexicalCastFromString, lexicalCastToString, hyaml, Option.bind_some, hw, Option.some.injEq]
  simp only [← reload_iff]
  rw [← hmap, ← hlist]
  constructor
  · rintro rfl
    rfl
  · intro h
    cases v
    cases w
    simpa using h

/-- A logger that writes to a file. -/
def toFile : LogDefines where
  list := [{ name := bytes "system", level := .INFO
             appenders := [{ type := 1, file := bytes "system.txt" }] }]
  sorted := List.pairwise_singleton _ _

/-- The library, on that logger. -/
def toFileYaml : Yaml where
  emit _ := bytes <| "- name: system\n  level: INFO\n  formatter: \"\"\n  appenders:\n" ++
    "    - type: FileLogAppender\n      file: system.txt"
  load _ := some (encode toFile)

theorem roundTrip_toFile :
    lexicalCastFromString toFileYaml (lexicalCastToString toFileYaml toFile) = some toFile :=
  (roundTrip_iff toFileYaml toFile rfl).mpr fun d hd => by
    obtain rfl := List.mem_singleton.mp hd
    exact ⟨rfl, by decide, fun a ha => by
      obtain rfl := List.mem_singleton.mp ha
      exact ⟨rfl, rfl⟩⟩

/-- A logger that writes to the standard output in a format of its own. -/
def toStdout : LogDefines where
  list := [{ name := bytes "root", level := .DEBUG, formatter := bytes "%m%n"
             appenders := [{ type := 2 }] }]
  sorted := List.pairwise_singleton _ _

/-- The library, on that logger. -/
def toStdoutYaml : Yaml where
  emit _ := bytes "- name: root\n  level: DEBUG\n  appenders:\n    - type: StdoutLoaAppender"
  load _ := some (encode toStdout)

/-- The formatter is not written, and the appender is not known to the decoder. -/
theorem stdout_lost : toStdoutYaml.load (toStdoutYaml.emit (encode toStdout)) =
      some (encode toStdout) ∧
    (lexicalCastFromString toStdoutYaml (lexicalCastToString toStdoutYaml toStdout)).map
      LogDefines.list = some [{ name := bytes "root", level := .DEBUG }] ∧
    lexicalCastFromString toStdoutYaml (lexicalCastToString toStdoutYaml toStdout) ≠
      some toStdout := by
  have hlist : (lexicalCastFromString toStdoutYaml (lexicalCastToString toStdoutYaml toStdout)).map
      LogDefines.list = some [{ name := bytes "root", level := .DEBUG }] := by decide
  refine ⟨rfl, hlist, fun h => ?_⟩
  rw [h, Option.map_some] at hlist
  exact absurd hlist (by decide)

end Log

end Sylar
