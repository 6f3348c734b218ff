import Mathlib.Algebra.Order.Ring.Int
import Sylar.Foundation.Text
import Sylar.Foundation.Transducer
import Sylar.Uri.Table

/-!
# URIs

`Uri::Create` runs the machine of `uri.rl` over a string. The actions share one pointer, `mark`:
the parts of the URI are what lies between it and the current byte when an action saves them. A
part saved while `mark` is null is a string made of a null pointer, which is an exception.

Strings are lists of bytes, and pointers are offsets into the string. What `atoi` reads goes to the
end of the string and not to the current byte.

## Main definitions

* `Uri`, with `getPath`, `getPort`, `toString`: a URI, and its text
* `atoi`: the number at the front of a string
* `act`, `create`: the actions, and `Uri::Create`
-/

namespace Sylar

open Foundation

/-- `Uri`. -/
structure Uri where
  scheme : List UInt8 := []
  userinfo : List UInt8 := []
  host : List UInt8 := []
  path : List UInt8 := []
  query : List UInt8 := []
  fragment : List UInt8 := []
  port : Int := 0
  deriving DecidableEq, Repr

namespace Uri

/-! ## The text of a URI -/

def isDefaultPort (uri : Uri) : Bool :=
  -- no port was given
  if uri.port = 0 then true
  else if uri.scheme = bytes "http" then uri.port = 80
  else if uri.scheme = bytes "https" then uri.port = 443
  else false

def getPath (uri : Uri) : List UInt8 := if uri.path = [] then bytes "/" else uri.path

def getPort (uri : Uri) : Int :=
  if uri.port ≠ 0 then uri.port
  else if uri.scheme = bytes "http" then 80
  else if uri.scheme = bytes "https" then 443
  else uri.port

/-- `dump`, into a string. -/
def toString (uri : Uri) : List UInt8 :=
  uri.scheme ++ bytes "://" ++
    uri.userinfo ++
    (if uri.userinfo = [] then [] else bytes "@") ++
    uri.host ++
    (if uri.isDefaultPort then [] else bytes ":" ++ bytes (ToString.toString uri.port)) ++
    uri.getPath ++
    (if uri.query = [] then [] else bytes "?") ++
    uri.query ++
    (if uri.fragment = [] then [] else bytes "#") ++
    uri.fragment

/-! ## Numbers -/

def isSpace (c : UInt8) : Bool := c = 32 || 9 ≤ c && c ≤ 13

/-- `strtol` in base 10: blanks, a sign, digits; a number that does not fit is the nearest one. -/
def strtol (nptr : List UInt8) : Int :=
  match nptr.dropWhile isSpace with
  | 45 :: text => max (-2 ^ 63) (-(numeral (text.takeWhile isDigit) : Int))
  | 43 :: text => min (2 ^ 63 - 1) (numeral (text.takeWhile isDigit) : Int)
  | text => min (2 ^ 63 - 1) (numeral (text.takeWhile isDigit) : Int)

/-- `atoi`: the `long` of `strtol` as an `int`. -/
def atoi (nptr : List UInt8) : Int := (strtol nptr).bmod (2 ^ 32)

/-! ## The machine -/

/-- The edge of a row for a byte. -/
def select (row : List Edge) (c : ℕ) : Option (ℕ × List Action) :=
  (row.find? fun e => Nat.ble e.lo c && Nat.ble c e.hi).map fun e => (e.target, e.actions)

/-- The edge for a byte. -/
def next (cs : ℕ) (c : UInt8) : Option (ℕ × List Action) := select (table.getD cs []) c.toNat

/-- The machine; no action ends it before the string does. -/
def machine : Automaton ℕ UInt8 Action where
  next := next
  ends _ := false

/-- The locals of `Create` that the actions change. -/
structure Locals where
  mark : Option ℕ := none
  uri : Uri := {}
  deriving DecidableEq, Repr

/-- `std::string(mark, fpc - mark)`: an exception for a null pointer. -/
def text (uristr : List UInt8) (mark : Option ℕ) (fpc : ℕ) : Option (List UInt8) :=
  mark.map fun mark => (uristr.drop mark).take (fpc - mark)

/-- The actions at the byte `fpc`. -/
def act (uristr : List UInt8) (fpc : ℕ) (l : Locals) : Action → Option Locals
  | .marku | .markh => some { l with mark := some fpc }
  | .save_scheme => (text uristr l.mark fpc).map fun v =>
      { mark := none, uri := { l.uri with scheme := v } }
  | .save_port => l.mark.map fun mark =>
      { mark := none
        uri := if fpc ≠ mark then { l.uri with port := atoi (uristr.drop mark) } else l.uri }
  | .save_userinfo =>
    -- no text was started: nothing is saved
    if l.mark = none then some l
    else (text uristr l.mark fpc).map fun v =>
      { mark := none, uri := { l.uri with userinfo := v } }
  | .save_host =>
    if l.mark = none then some l
    else (text uristr l.mark fpc).map fun v => { l with uri := { l.uri with host := v } }
  | .save_path => (text uristr l.mark fpc).map fun v =>
      { mark := none, uri := { l.uri with path := v } }
  | .save_query => (text uristr l.mark fpc).map fun v =>
      { mark := none, uri := { l.uri with query := v } }
  | .save_fragment => (text uristr l.mark fpc).map fun v =>
      { mark := none, uri := { l.uri with fragment := v } }

/-- `Create`: an exception, a null pointer or a URI. -/
def create (uristr : List UInt8) : Option (Option Uri) :=
  (machine.exec (act uristr) 451 0 {} uristr).bind fun r =>
    match r.1 with
    | none => some none
    | some cs =>
      ((eofActions cs).foldlM (act uristr uristr.length) r.2).map fun l =>
        -- the final states
        if 451 ≤ cs then some l.uri else none

end Uri

end Sylar
