import Mathlib.Data.List.Pairwise
import Mathlib.Logic.Function.Basic

/-!
# Loggers, appenders and their formats

A `Logger` has a level, a formatter and a list of appenders; an appender writes to the standard
output or to a file, with a level of its own. An appender without a formatter is given the one of
the logger it is added to, and follows it from then on; `m_hasFormatter` tells it from one with a
formatter of its own.

Strings are lists of bytes. The appenders are on a heap, since a logger has pointers to them.

## Main definitions

* `Level`, `Level.toString`, `Level.fromString`: the levels
* `LogFormatter`, `LogFormatter.init`: a pattern, and what `init` makes of it
* `LogAppender`, `Logger`, with `setFormatter`, `addAppender`, `delAppender`, `clearAppenders`
* `LogAppenderDefine`, `LogDefine`, `LogDefines`: the configuration
-/

namespace Sylar

namespace Log

def bytes (s : String) : List UInt8 := s.toList.map fun c => UInt8.ofNat c.toNat

/-! ## Levels -/

/-- `LogLevel::Level`, by its number. -/
structure Level where
  val : Int
  deriving DecidableEq, Repr

namespace Level

def UNKNOW : Level := ⟨0⟩
def DEBUG : Level := ⟨1⟩
def INFO : Level := ⟨2⟩
def WARN : Level := ⟨3⟩
def ERROR : Level := ⟨4⟩
def FATAL : Level := ⟨5⟩

def toString (level : Level) : List UInt8 :=
  if level = DEBUG then bytes "DEBUG"
  else if level = INFO then bytes "INFO"
  else if level = WARN then bytes "WARN"
  else if level = ERROR then bytes "ERROR"
  else if level = FATAL then bytes "FATAL"
  else bytes "UNKNOW"

/-- The names in the order in which they are compared. -/
def names : List (List UInt8 × Level) := [
  (bytes "debug", DEBUG), (bytes "info", INFO), (bytes "warn", WARN), (bytes "error", ERROR),
  (bytes "fatal", FATAL),
  (bytes "DEBUG", DEBUG), (bytes "INFO", INFO), (bytes "WARN", WARN), (bytes "ERROR", ERROR),
  (bytes "FATAL", FATAL)]

def fromString (str : List UInt8) : Level := (names.lookup str).getD UNKNOW

end Level

/-! ## Formats -/

namespace LogFormatter

/-- An element of `vec`: a text, or a directive with its format. -/
structure Piece where
  str : List UInt8
  fmt : List UInt8 := []
  directive : Bool
  deriving DecidableEq

/-- `isalpha`. -/
def isalpha (c : UInt8) : Bool := 65 ≤ c && c ≤ 90 || 97 ≤ c && c ≤ 122

/-- The inner loop with `fmt_state = 0`, after the `%`: the name, and the rest from the byte that
ends it. -/
def readName : List UInt8 → List UInt8 × List UInt8
  | [] => ([], [])
  | c :: rest =>
    -- a `}` outside of a format is part of the name
    if isalpha c || c = 125 then (c :: (readName rest).1, (readName rest).2) else ([], c :: rest)

/-- The inner loop with `fmt_state = 1`, after the `{`: the format and the rest behind the `}`, or
nothing when the pattern ends before. -/
def readFmt : List UInt8 → Option (List UInt8 × List UInt8)
  | [] => none
  | c :: rest =>
    if c = 125 then some ([], rest) else (readFmt rest).map fun r => (c :: r.1, r.2)

/-- A directive after its `%`: its name, its format and the rest. -/
def readDirective (rest : List UInt8) : Option (List UInt8 × List UInt8 × List UInt8) :=
  let r := readName rest
  match r.2 with
  | [] => some (r.1, [], [])
  | c :: rest => if c = 123 then (readFmt rest).map fun f => (r.1, f) else some (r.1, [], c :: rest)

/-- The text so far as a piece, if it is not empty. -/
def text (nstr : List UInt8) : List Piece := if nstr = [] then [] else [⟨nstr, [], false⟩]

/-- The loop of `init` over the pattern, with `nstr`: `vec`, and whether it found an error. Each
turn takes a byte, so the length of the pattern is enough turns. -/
def split : ℕ → List UInt8 → List UInt8 → List Piece × Bool
  -- the turns are one for each byte, and do not run out
  | 0, _, nstr => (text nstr, false)
  | _, [], nstr => (text nstr, false)
  | turns + 1, c :: rest, nstr =>
    if c ≠ 37 then split turns rest (nstr ++ [c])
    else if rest.head? = some 37 then
      -- the second `%` is read again
      split turns rest (nstr ++ [37])
    else
      match readDirective rest with
      | some (str, fmt, rest) =>
        let r := split turns rest []
        (text nstr ++ ⟨str, fmt, true⟩ :: r.1, r.2)
      | none =>
        let r := split turns rest nstr
        (⟨bytes "<<pattern_error>>", [], false⟩ :: r.1, true)

/-- The keys of `s_format_items`. -/
def formatItems : List (List UInt8) :=
  [bytes "m", bytes "p", bytes "r", bytes "c", bytes "t", bytes "n", bytes "d", bytes "f",
    bytes "l", bytes "T", bytes "F", bytes "N"]

/-- `init`: `vec`, and `m_error`. -/
def init (pattern : List UInt8) : List Piece × Bool :=
  let r := split pattern.length pattern []
  (r.1, r.2 || r.1.any fun piece => piece.directive && piece.str ∉ formatItems)

end LogFormatter

/-- A formatter does not change once it is made. -/
structure LogFormatter where
  pattern : List UInt8
  deriving DecidableEq

namespace LogFormatter

def isError (f : LogFormatter) : Bool := (init f.pattern).2

end LogFormatter

/-! ## Appenders and loggers -/

/-- Where an appender writes. -/
inductive Sink
  | file (filename : List UInt8)
  | stdout
  deriving DecidableEq

structure LogAppender where
  sink : Sink
  level : Level := .DEBUG
  hasFormatter : Bool := false
  formatter : Option LogFormatter := none
  deriving DecidableEq

namespace LogAppender

def setFormatter (ap : LogAppender) (val : Option LogFormatter) : LogAppender :=
  { ap with formatter := val, hasFormatter := val.isSome }

/-- The appender follows its logger. -/
def follow (ap : LogAppender) (val : Option LogFormatter) : LogAppender :=
  { ap with formatter := val }

end LogAppender

abbrev Heap := ℕ → LogAppender

structure Logger where
  level : Level := .DEBUG
  formatter : Option LogFormatter :=
    some ⟨bytes "%d\x7b%Y-%m-%d %H:%M:%S\x7d%T%t%T%N%T%F%T[%p]%T[%c]%T<%f:%l>%T%m%n"⟩
  appenders : List ℕ := []
  deriving DecidableEq

namespace Logger

def setLevel (l : Logger) (val : Level) : Logger := { l with level := val }

/-- `setFormatter(LogFormatter::ptr)`: the appenders without a formatter of their own follow. -/
def setFormatterPtr (l : Logger) (heap : Heap) (val : Option LogFormatter) : Logger × Heap :=
  ({ l with formatter := val },
    l.appenders.foldl (fun heap p =>
      -- an appender with a formatter of its own keeps it
      if (heap p).hasFormatter then heap else Function.update heap p ((heap p).follow val)) heap)

/-- `setFormatter(const std::string&)`: an invalid pattern is refused. -/
def setFormatter (l : Logger) (heap : Heap) (val : List UInt8) : Logger × Heap :=
  if (⟨val⟩ : LogFormatter).isError then (l, heap) else l.setFormatterPtr heap (some ⟨val⟩)

def addAppender (l : Logger) (heap : Heap) (p : ℕ) : Logger × Heap :=
  ({ l with appenders := l.appenders ++ [p] },
    -- `getFormatter` also finds a formatter taken over from another logger
    if (heap p).formatter = none then Function.update heap p ((heap p).follow l.formatter)
    else heap)

def delAppender (l : Logger) (p : ℕ) : Logger := { l with appenders := l.appenders.erase p }

def clearAppenders (l : Logger) : Logger := { l with appenders := [] }

end Logger

/-! ## The configuration -/

structure LogAppenderDefine where
  /-- 1 for a file, 2 for the standard output. -/
  type : Int := 0
  level : Level := .UNKNOW
  formatter : List UInt8 := []
  file : List UInt8 := []
  deriving DecidableEq

structure LogDefine where
  name : List UInt8
  level : Level := .UNKNOW
  formatter : List UInt8 := []
  appenders : List LogAppenderDefine := []
  deriving DecidableEq

/-- `operator<`: the names are compared, and nothing else. -/
def LogDefine.lt (d d' : LogDefine) : Prop := d.name < d'.name

instance : DecidableRel LogDefine.lt := fun d d' => inferInstanceAs (Decidable (d.name < d'.name))

theorem LogDefine.lt_asymm (d d' : LogDefine) (h : d.lt d') : ¬ d'.lt d := fun h' =>
  List.lt_irrefl d.name (List.lt_trans h h')

/-- `std::set<LogDefine>`, in order. -/
structure LogDefines where
  list : List LogDefine
  sorted : list.Pairwise LogDefine.lt

end Log

end Sylar
