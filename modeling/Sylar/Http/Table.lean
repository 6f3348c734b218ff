import Mathlib.Data.List.Basic

/-!
# The table of the HTTP request parser

The machine of `http_parser_execute`: what each jump of the state machine in `http11_parser.rl.cc`
looks at, where it leads, and the actions on its way. State 0 is the error state and has no edges,
the machine starts in state 1 and its final states are 348 and 349. The type `char` is signed: the
bytes from 128 are its negative values, in the same order.

## Main definitions

* `Action`, `Edge`: the actions of the machine, and its edges
* `table`: the edges of each state
-/

namespace Sylar

namespace Http

/-- The actions of the machine. -/
inductive Action
  | mark
  | start_field
  | write_field
  | start_value
  | write_value
  | request_method
  | request_uri
  | fragment
  | start_query
  | query_string
  | http_version
  | request_path
  | done
  | xml
  | json
  deriving DecidableEq, Repr

/-- An edge for the bytes from `lo` to `hi`; some edges need `uri_relaxed`. -/
structure Edge where
  lo : ℕ
  hi : ℕ
  target : ℕ
  actions : List Action
  relaxed : Bool

def Edge.on (lo hi target : ℕ) (actions : List Action := []) (relaxed : Bool := false) : Edge where
  lo := lo
  hi := hi
  target := target
  actions := actions
  relaxed := relaxed

/-- The request line after the method, and the headers: states 0 to 32. -/
def requestRows : List (List Edge) := [
  [],
  [.on 48 57 2 [.mark], .on 60 60 194 [.mark], .on 64 64 198 [.mark], .on 65 90 2 [.mark]],
  [.on 32 32 3 [.request_method], .on 48 57 175, .on 65 90 175],
  [.on 32 32 4 [.mark, .request_path, .request_uri], .on 33 33 19 [.mark],
    .on 35 35 20 [.mark, .request_path, .request_uri], .on 36 36 19 [.mark], .on 37 37 24 [.mark],
    .on 38 46 19 [.mark], .on 47 47 33 [.mark], .on 48 57 19 [.mark], .on 59 59 19 [.mark],
    .on 61 61 19 [.mark], .on 63 63 29 [.mark, .request_path], .on 64 64 19 [.mark],
    .on 65 90 173 [.mark], .on 95 95 19 [.mark], .on 97 122 173 [.mark], .on 126 126 19 [.mark],
    .on 94 94 19 [.mark] true, .on 123 123 19 [.mark] true, .on 125 125 19 [.mark] true],
  [.on 72 72 5 [.mark]],
  [.on 84 84 6],
  [.on 84 84 7],
  [.on 80 80 8],
  [.on 47 47 9],
  [.on 49 49 10],
  [.on 46 46 11],
  [.on 48 49 12],
  [.on 10 10 13 [.http_version], .on 13 13 17 [.http_version]],
  [.on 1 8 14 [.start_field], .on 10 10 348 [.start_field, .done], .on 11 12 14 [.start_field],
    .on 13 13 18 [.start_field], .on 14 31 14 [.start_field], .on 33 33 14 [.start_field],
    .on 35 39 14 [.start_field], .on 42 43 14 [.start_field], .on 45 46 14 [.start_field],
    .on 48 57 14 [.start_field], .on 65 90 14 [.start_field], .on 94 122 14 [.start_field],
    .on 124 124 14 [.start_field], .on 126 126 14 [.start_field]],
  [.on 1 8 14, .on 10 31 14, .on 33 33 14, .on 35 39 14, .on 42 43 14, .on 45 46 14, .on 48 57 14,
    .on 58 58 15 [.write_field], .on 65 90 14, .on 94 122 14, .on 124 124 14, .on 126 126 14],
  [.on 1 8 16 [.start_value], .on 9 9 15 [.start_value],
    .on 10 10 13 [.start_value, .write_value], .on 11 12 16 [.start_value],
    .on 13 13 17 [.start_value, .write_value], .on 14 31 16 [.start_value],
    .on 32 32 15 [.start_value], .on 33 126 16 [.start_value], .on 128 255 16 [.start_value]],
  [.on 1 9 16, .on 10 10 13 [.write_value], .on 11 12 16, .on 13 13 17 [.write_value],
    .on 14 126 16, .on 128 255 16],
  [.on 10 10 13],
  [.on 1 8 14, .on 10 10 348 [.done], .on 11 31 14, .on 33 33 14, .on 35 39 14, .on 42 43 14,
    .on 45 46 14, .on 48 57 14, .on 58 58 15 [.write_field], .on 65 90 14, .on 94 122 14,
    .on 124 124 14, .on 126 126 14],
  [.on 32 32 4 [.request_path, .request_uri], .on 33 33 19,
    .on 35 35 20 [.request_path, .request_uri], .on 36 36 19, .on 37 37 24, .on 38 46 19,
    .on 47 47 26, .on 48 57 19, .on 59 59 19, .on 61 61 19, .on 63 63 29 [.request_path],
    .on 64 90 19, .on 95 95 19, .on 97 122 19, .on 126 126 19, .on 94 94 19 [] true,
    .on 123 123 19 [] true, .on 125 125 19 [] true],
  [.on 32 32 4 [.mark, .fragment], .on 33 33 21 [.mark], .on 36 36 21 [.mark],
    .on 37 37 22 [.mark], .on 38 59 21 [.mark], .on 61 61 21 [.mark], .on 63 90 21 [.mark],
    .on 95 95 21 [.mark], .on 97 122 21 [.mark], .on 126 126 21 [.mark], .on 128 255 21 [.mark],
    .on 94 94 21 [.mark] true, .on 123 123 21 [.mark] true, .on 125 125 21 [.mark] true],
  [.on 32 32 4 [.fragment], .on 33 33 21, .on 36 36 21, .on 37 37 22, .on 38 59 21, .on 61 61 21,
    .on 63 90 21, .on 95 95 21, .on 97 122 21, .on 126 126 21, .on 128 255 21,
    .on 94 94 21 [] true, .on 123 123 21 [] true, .on 125 125 21 [] true],
  [.on 48 57 23, .on 65 70 23, .on 97 102 23],
  [.on 48 57 21, .on 65 70 21, .on 97 102 21],
  [.on 48 57 25, .on 65 70 25, .on 97 102 25],
  [.on 48 57 19, .on 65 70 19, .on 97 102 19],
  [.on 32 32 4 [.request_path, .request_uri], .on 33 33 26,
    .on 35 35 20 [.request_path, .request_uri], .on 36 36 26, .on 37 37 27, .on 38 59 26,
    .on 61 61 26, .on 63 63 29 [.request_path], .on 64 90 26, .on 95 95 26, .on 97 122 26,
    .on 126 126 26, .on 128 255 26, .on 94 94 26 [] true, .on 123 123 26 [] true,
    .on 125 125 26 [] true],
  [.on 48 57 28, .on 65 70 28, .on 97 102 28],
  [.on 48 57 26, .on 65 70 26, .on 97 102 26],
  [.on 32 32 4 [.start_query, .query_string, .request_uri], .on 33 33 30 [.start_query],
    .on 35 35 20 [.start_query, .query_string, .request_uri], .on 36 36 30 [.start_query],
    .on 37 37 31 [.start_query], .on 38 59 30 [.start_query], .on 61 61 30 [.start_query],
    .on 63 90 30 [.start_query], .on 95 95 30 [.start_query], .on 97 122 30 [.start_query],
    .on 126 126 30 [.start_query], .on 128 255 30 [.start_query],
    .on 94 94 30 [.start_query] true, .on 123 123 30 [.start_query] true,
    .on 125 125 30 [.start_query] true],
  [.on 32 32 4 [.query_string, .request_uri], .on 33 33 30,
    .on 35 35 20 [.query_string, .request_uri], .on 36 36 30, .on 37 37 31, .on 38 59 30,
    .on 61 61 30, .on 63 90 30, .on 95 95 30, .on 97 122 30, .on 126 126 30, .on 128 255 30,
    .on 94 94 30 [] true, .on 123 123 30 [] true, .on 125 125 30 [] true],
  [.on 48 57 32, .on 65 70 32, .on 97 102 32],
  [.on 48 57 30, .on 65 70 30, .on 97 102 30]]

/-- A URI with a scheme or an authority: states 33 to 174. -/
def authorityRows : List (List Edge) := [
  [.on 32 32 4 [.request_path, .request_uri], .on 33 33 26,
    .on 35 35 20 [.request_path, .request_uri], .on 36 36 26, .on 37 37 27, .on 38 46 26,
    .on 47 47 34, .on 48 59 26, .on 61 61 26, .on 63 63 29 [.request_path], .on 64 90 26,
    .on 95 95 26, .on 97 122 26, .on 126 126 26, .on 128 255 26, .on 94 94 26 [] true,
    .on 123 123 26 [] true, .on 125 125 26 [] true],
  [.on 32 32 4 [.request_path, .request_uri], .on 33 33 35,
    .on 35 35 20 [.request_path, .request_uri], .on 36 36 35, .on 37 37 36, .on 38 46 35,
    .on 47 47 26, .on 48 57 35, .on 58 58 38, .on 59 59 35, .on 61 61 35,
    .on 63 63 29 [.request_path], .on 64 64 42, .on 65 90 35, .on 91 91 47, .on 95 95 35,
    .on 97 122 35, .on 126 126 35, .on 94 94 35 [] true, .on 123 123 35 [] true,
    .on 125 125 35 [] true],
  [.on 32 32 4 [.request_path, .request_uri], .on 33 33 35,
    .on 35 35 20 [.request_path, .request_uri], .on 36 36 35, .on 37 37 36, .on 38 46 35,
    .on 47 47 26, .on 48 57 35, .on 58 58 38, .on 59 59 35, .on 61 61 35,
    .on 63 63 29 [.request_path], .on 64 64 42, .on 65 90 35, .on 95 95 35, .on 97 122 35,
    .on 126 126 35, .on 94 94 35 [] true, .on 123 123 35 [] true, .on 125 125 35 [] true],
  [.on 48 57 37, .on 65 70 37, .on 97 102 37],
  [.on 48 57 35, .on 65 70 35, .on 97 102 35],
  [.on 32 32 4 [.request_path, .request_uri], .on 33 33 39,
    .on 35 35 20 [.request_path, .request_uri], .on 36 36 39, .on 37 37 40, .on 38 46 39,
    .on 47 47 26, .on 48 57 38, .on 58 59 39, .on 61 61 39, .on 63 63 29 [.request_path],
    .on 64 64 42, .on 65 90 39, .on 95 95 39, .on 97 122 39, .on 126 126 39, .on 94 94 39 [] true,
    .on 123 123 39 [] true, .on 125 125 39 [] true],
  [.on 33 33 39, .on 36 36 39, .on 37 37 40, .on 38 46 39, .on 48 59 39, .on 61 61 39,
    .on 64 64 42, .on 65 90 39, .on 95 95 39, .on 97 122 39, .on 126 126 39, .on 94 94 39 [] true,
    .on 123 123 39 [] true, .on 125 125 39 [] true],
  [.on 48 57 41, .on 65 70 41, .on 97 102 41],
  [.on 48 57 39, .on 65 70 39, .on 97 102 39],
  [.on 32 32 4 [.request_path, .request_uri], .on 33 33 43,
    .on 35 35 20 [.request_path, .request_uri], .on 36 36 43, .on 37 37 44, .on 38 46 43,
    .on 47 47 26, .on 48 57 43, .on 58 58 46, .on 59 59 43, .on 61 61 43,
    .on 63 63 29 [.request_path], .on 65 90 43, .on 91 91 47, .on 95 95 43, .on 97 122 43,
    .on 126 126 43, .on 94 94 43 [] true, .on 123 123 43 [] true, .on 125 125 43 [] true],
  [.on 32 32 4 [.request_path, .request_uri], .on 33 33 43,
    .on 35 35 20 [.request_path, .request_uri], .on 36 36 43, .on 37 37 44, .on 38 46 43,
    .on 47 47 26, .on 48 57 43, .on 58 58 46, .on 59 59 43, .on 61 61 43,
    .on 63 63 29 [.request_path], .on 65 90 43, .on 95 95 43, .on 97 122 43, .on 126 126 43,
    .on 94 94 43 [] true, .on 123 123 43 [] true, .on 125 125 43 [] true],
  [.on 48 57 45, .on 65 70 45, .on 97 102 45],
  [.on 48 57 43, .on 65 70 43, .on 97 102 43],
  [.on 32 32 4 [.request_path, .request_uri], .on 35 35 20 [.request_path, .request_uri],
    .on 47 47 26, .on 48 57 46, .on 63 63 29 [.request_path]],
  [.on 6 6 48, .on 48 57 91, .on 58 58 167, .on 65 70 91, .on 97 102 91, .on 118 118 169],
  [.on 48 57 49, .on 65 70 49, .on 97 102 49],
  [.on 48 57 50, .on 58 58 53, .on 65 70 50, .on 97 102 50],
  [.on 48 57 51, .on 58 58 53, .on 65 70 51, .on 97 102 51],
  [.on 48 57 52, .on 58 58 53, .on 65 70 52, .on 97 102 52],
  [.on 58 58 53],
  [.on 48 48 54, .on 49 49 84, .on 50 50 87, .on 51 57 54, .on 65 70 90, .on 97 102 90],
  [.on 46 46 55, .on 48 57 77, .on 58 58 80, .on 65 70 77, .on 97 102 77],
  [.on 48 48 56, .on 49 49 72, .on 50 50 74, .on 51 57 56],
  [.on 46 46 57],
  [.on 48 48 58, .on 49 49 67, .on 50 50 69, .on 51 57 58],
  [.on 46 46 59],
  [.on 48 48 60, .on 49 49 62, .on 50 50 64, .on 51 57 60],
  [.on 93 93 61],
  [.on 32 32 4 [.request_path, .request_uri], .on 35 35 20 [.request_path, .request_uri],
    .on 47 47 26, .on 58 58 46, .on 63 63 29 [.request_path]],
  [.on 48 57 63, .on 93 93 61],
  [.on 48 57 60, .on 93 93 61],
  [.on 48 48 65, .on 53 53 66, .on 93 93 61],
  [.on 48 57 60],
  [.on 48 48 60],
  [.on 46 46 59, .on 48 57 68],
  [.on 46 46 59, .on 48 57 58],
  [.on 46 46 59, .on 48 48 70, .on 53 53 71],
  [.on 48 57 58],
  [.on 48 48 58],
  [.on 46 46 57, .on 48 57 73],
  [.on 46 46 57, .on 48 57 56],
  [.on 46 46 57, .on 48 48 75, .on 53 53 76],
  [.on 48 57 56],
  [.on 48 48 56],
  [.on 48 57 78, .on 58 58 80, .on 65 70 78, .on 97 102 78],
  [.on 48 57 79, .on 58 58 80, .on 65 70 79, .on 97 102 79],
  [.on 58 58 80],
  [.on 48 57 81, .on 65 70 81, .on 97 102 81],
  [.on 48 57 82, .on 65 70 82, .on 93 93 61, .on 97 102 82],
  [.on 48 57 83, .on 65 70 83, .on 93 93 61, .on 97 102 83],
  [.on 48 57 60, .on 65 70 60, .on 93 93 61, .on 97 102 60],
  [.on 46 46 55, .on 48 57 85, .on 58 58 80, .on 65 70 77, .on 97 102 77],
  [.on 46 46 55, .on 48 57 86, .on 58 58 80, .on 65 70 78, .on 97 102 78],
  [.on 46 46 55, .on 48 57 79, .on 58 58 80, .on 65 70 79, .on 97 102 79],
  [.on 46 46 55, .on 48 48 88, .on 49 52 77, .on 53 53 89, .on 54 57 77, .on 58 58 80,
    .on 65 70 77, .on 97 102 77],
  [.on 48 57 86, .on 58 58 80, .on 65 70 78, .on 97 102 78],
  [.on 48 48 86, .on 49 57 78, .on 58 58 80, .on 65 70 78, .on 97 102 78],
  [.on 48 57 77, .on 58 58 80, .on 65 70 77, .on 97 102 77],
  [.on 48 57 92, .on 58 58 95, .on 65 70 92, .on 97 102 92],
  [.on 48 57 93, .on 58 58 95, .on 65 70 93, .on 97 102 93],
  [.on 48 57 94, .on 58 58 95, .on 65 70 94, .on 97 102 94],
  [.on 58 58 95],
  [.on 48 57 96, .on 58 58 166, .on 65 70 96, .on 97 102 96],
  [.on 48 57 97, .on 58 58 100, .on 65 70 97, .on 97 102 97],
  [.on 48 57 98, .on 58 58 100, .on 65 70 98, .on 97 102 98],
  [.on 48 57 99, .on 58 58 100, .on 65 70 99, .on 97 102 99],
  [.on 58 58 100],
  [.on 48 57 101, .on 58 58 165, .on 65 70 101, .on 97 102 101],
  [.on 48 57 102, .on 58 58 105, .on 65 70 102, .on 97 102 102],
  [.on 48 57 103, .on 58 58 105, .on 65 70 103, .on 97 102 103],
  [.on 48 57 104, .on 58 58 105, .on 65 70 104, .on 97 102 104],
  [.on 58 58 105],
  [.on 48 57 106, .on 58 58 164, .on 65 70 106, .on 97 102 106],
  [.on 48 57 107, .on 58 58 110, .on 65 70 107, .on 97 102 107],
  [.on 48 57 108, .on 58 58 110, .on 65 70 108, .on 97 102 108],
  [.on 48 57 109, .on 58 58 110, .on 65 70 109, .on 97 102 109],
  [.on 58 58 110],
  [.on 48 57 111, .on 58 58 163, .on 65 70 111, .on 97 102 111],
  [.on 48 57 112, .on 58 58 115, .on 65 70 112, .on 97 102 112],
  [.on 48 57 113, .on 58 58 115, .on 65 70 113, .on 97 102 113],
  [.on 48 57 114, .on 58 58 115, .on 65 70 114, .on 97 102 114],
  [.on 58 58 115],
  [.on 48 57 116, .on 58 58 151, .on 65 70 116, .on 97 102 116],
  [.on 48 57 117, .on 58 58 120, .on 65 70 117, .on 97 102 117],
  [.on 48 57 118, .on 58 58 120, .on 65 70 118, .on 97 102 118],
  [.on 48 57 119, .on 58 58 120, .on 65 70 119, .on 97 102 119],
  [.on 58 58 120],
  [.on 48 57 121, .on 58 58 150, .on 65 70 121, .on 97 102 121],
  [.on 48 57 122, .on 58 58 125, .on 65 70 122, .on 97 102 122],
  [.on 48 57 123, .on 58 58 125, .on 65 70 123, .on 97 102 123],
  [.on 48 57 124, .on 58 58 125, .on 65 70 124, .on 97 102 124],
  [.on 58 58 125],
  [.on 48 57 121, .on 58 58 126, .on 65 70 121, .on 97 102 121],
  [.on 2 3 48, .on 48 48 127, .on 49 49 143, .on 50 50 146, .on 51 57 127, .on 65 70 149,
    .on 93 93 61, .on 97 102 149],
  [.on 46 46 55, .on 48 57 128, .on 58 58 131, .on 65 70 128, .on 93 93 61, .on 97 102 128],
  [.on 48 57 129, .on 58 58 131, .on 65 70 129, .on 93 93 61, .on 97 102 129],
  [.on 48 57 130, .on 58 58 131, .on 65 70 130, .on 93 93 61, .on 97 102 130],
  [.on 58 58 131, .on 93 93 61],
  [.on 48 48 132, .on 49 49 136, .on 50 50 139, .on 51 57 132, .on 65 70 142, .on 97 102 142],
  [.on 46 46 55, .on 48 57 133, .on 58 58 80, .on 65 70 133, .on 93 93 61, .on 97 102 133],
  [.on 48 57 134, .on 58 58 80, .on 65 70 134, .on 93 93 61, .on 97 102 134],
  [.on 48 57 135, .on 58 58 80, .on 65 70 135, .on 93 93 61, .on 97 102 135],
  [.on 58 58 80, .on 93 93 61],
  [.on 46 46 55, .on 48 57 137, .on 58 58 80, .on 65 70 133, .on 93 93 61, .on 97 102 133],
  [.on 46 46 55, .on 48 57 138, .on 58 58 80, .on 65 70 134, .on 93 93 61, .on 97 102 134],
  [.on 46 46 55, .on 48 57 135, .on 58 58 80, .on 65 70 135, .on 93 93 61, .on 97 102 135],
  [.on 46 46 55, .on 48 48 140, .on 49 52 133, .on 53 53 141, .on 54 57 133, .on 58 58 80,
    .on 65 70 133, .on 93 93 61, .on 97 102 133],
  [.on 48 57 138, .on 58 58 80, .on 65 70 134, .on 93 93 61, .on 97 102 134],
  [.on 48 48 138, .on 49 57 134, .on 58 58 80, .on 65 70 134, .on 93 93 61, .on 97 102 134],
  [.on 48 57 133, .on 58 58 80, .on 65 70 133, .on 93 93 61, .on 97 102 133],
  [.on 46 46 55, .on 48 57 144, .on 58 58 131, .on 65 70 128, .on 93 93 61, .on 97 102 128],
  [.on 46 46 55, .on 48 57 145, .on 58 58 131, .on 65 70 129, .on 93 93 61, .on 97 102 129],
  [.on 46 46 55, .on 48 57 130, .on 58 58 131, .on 65 70 130, .on 93 93 61, .on 97 102 130],
  [.on 46 46 55, .on 48 48 147, .on 49 52 128, .on 53 53 148, .on 54 57 128, .on 58 58 131,
    .on 65 70 128, .on 93 93 61, .on 97 102 128],
  [.on 48 57 145, .on 58 58 131, .on 65 70 129, .on 93 93 61, .on 97 102 129],
  [.on 48 48 145, .on 49 57 129, .on 58 58 131, .on 65 70 129, .on 93 93 61, .on 97 102 129],
  [.on 48 57 128, .on 58 58 131, .on 65 70 128, .on 93 93 61, .on 97 102 128],
  [.on 2 3 48, .on 48 48 127, .on 49 49 143, .on 50 50 146, .on 51 57 127, .on 65 70 149,
    .on 97 102 149],
  [.on 2 3 48, .on 48 48 152, .on 49 49 156, .on 50 50 159, .on 51 57 152, .on 65 70 162,
    .on 97 102 162],
  [.on 46 46 55, .on 48 57 153, .on 58 58 131, .on 65 70 153, .on 97 102 153],
  [.on 48 57 154, .on 58 58 131, .on 65 70 154, .on 97 102 154],
  [.on 48 57 155, .on 58 58 131, .on 65 70 155, .on 97 102 155],
  [.on 58 58 131],
  [.on 46 46 55, .on 48 57 157, .on 58 58 131, .on 65 70 153, .on 97 102 153],
  [.on 46 46 55, .on 48 57 158, .on 58 58 131, .on 65 70 154, .on 97 102 154],
  [.on 46 46 55, .on 48 57 155, .on 58 58 131, .on 65 70 155, .on 97 102 155],
  [.on 46 46 55, .on 48 48 160, .on 49 52 153, .on 53 53 161, .on 54 57 153, .on 58 58 131,
    .on 65 70 153, .on 97 102 153],
  [.on 48 57 158, .on 58 58 131, .on 65 70 154, .on 97 102 154],
  [.on 48 48 158, .on 49 57 154, .on 58 58 131, .on 65 70 154, .on 97 102 154],
  [.on 48 57 153, .on 58 58 131, .on 65 70 153, .on 97 102 153],
  [.on 2 3 48, .on 48 57 49, .on 65 70 49, .on 97 102 49],
  [.on 2 3 48],
  [.on 3 3 48],
  [.on 4 4 48],
  [.on 58 58 168],
  [.on 2 5 48, .on 48 48 127, .on 49 49 143, .on 50 50 146, .on 51 57 127, .on 65 70 149,
    .on 93 93 61, .on 97 102 149],
  [.on 48 57 170, .on 65 70 170, .on 97 102 170],
  [.on 46 46 171, .on 48 57 170, .on 65 70 170, .on 97 102 170],
  [.on 33 33 172, .on 36 36 172, .on 38 46 172, .on 48 59 172, .on 61 61 172, .on 65 90 172,
    .on 95 95 172, .on 97 122 172, .on 126 126 172, .on 94 94 172 [] true,
    .on 123 123 172 [] true, .on 125 125 172 [] true],
  [.on 33 33 172, .on 36 36 172, .on 38 46 172, .on 48 59 172, .on 61 61 172, .on 65 90 172,
    .on 93 93 61, .on 95 95 172, .on 97 122 172, .on 126 126 172, .on 94 94 172 [] true,
    .on 123 123 172 [] true, .on 125 125 172 [] true],
  [.on 32 32 4 [.request_path, .request_uri], .on 33 33 19,
    .on 35 35 20 [.request_path, .request_uri], .on 36 36 19, .on 37 37 24, .on 38 42 19,
    .on 43 43 173, .on 44 44 19, .on 45 46 173, .on 47 47 26, .on 48 57 173, .on 58 58 174,
    .on 59 59 19, .on 61 61 19, .on 63 63 29 [.request_path], .on 64 64 19, .on 65 90 173,
    .on 95 95 19, .on 97 122 173, .on 126 126 19, .on 94 94 19 [] true, .on 123 123 19 [] true,
    .on 125 125 19 [] true],
  [.on 32 32 4 [.mark, .request_path, .request_uri], .on 33 33 26 [.mark],
    .on 35 35 20 [.mark, .request_path, .request_uri], .on 36 36 26 [.mark], .on 37 37 27 [.mark],
    .on 38 46 26 [.mark], .on 47 47 33 [.mark], .on 48 59 26 [.mark], .on 61 61 26 [.mark],
    .on 63 63 29 [.mark, .request_path], .on 64 90 26 [.mark], .on 95 95 26 [.mark],
    .on 97 122 26 [.mark], .on 126 126 26 [.mark], .on 128 255 26 [.mark],
    .on 94 94 26 [.mark] true, .on 123 123 26 [.mark] true, .on 125 125 26 [.mark] true]]

/-- The method, and an XML message: states 175 to 197. -/
def methodRows : List (List Edge) := [
  [.on 32 32 3 [.request_method], .on 48 57 176, .on 65 90 176],
  [.on 32 32 3 [.request_method], .on 48 57 177, .on 65 90 177],
  [.on 32 32 3 [.request_method], .on 48 57 178, .on 65 90 178],
  [.on 32 32 3 [.request_method], .on 48 57 179, .on 65 90 179],
  [.on 32 32 3 [.request_method], .on 48 57 180, .on 65 90 180],
  [.on 32 32 3 [.request_method], .on 48 57 181, .on 65 90 181],
  [.on 32 32 3 [.request_method], .on 48 57 182, .on 65 90 182],
  [.on 32 32 3 [.request_method], .on 48 57 183, .on 65 90 183],
  [.on 32 32 3 [.request_method], .on 48 57 184, .on 65 90 184],
  [.on 32 32 3 [.request_method], .on 48 57 185, .on 65 90 185],
  [.on 32 32 3 [.request_method], .on 48 57 186, .on 65 90 186],
  [.on 32 32 3 [.request_method], .on 48 57 187, .on 65 90 187],
  [.on 32 32 3 [.request_method], .on 48 57 188, .on 65 90 188],
  [.on 32 32 3 [.request_method], .on 48 57 189, .on 65 90 189],
  [.on 32 32 3 [.request_method], .on 48 57 190, .on 65 90 190],
  [.on 32 32 3 [.request_method], .on 48 57 191, .on 65 90 191],
  [.on 32 32 3 [.request_method], .on 48 57 192, .on 65 90 192],
  [.on 32 32 3 [.request_method], .on 48 57 193, .on 65 90 193],
  [.on 32 32 3 [.request_method]],
  [.on 45 46 195, .on 48 57 195, .on 65 90 195, .on 97 122 195],
  [.on 9 13 196 [.request_path], .on 32 32 196 [.request_path], .on 45 46 195,
    .on 47 47 196 [.request_path], .on 48 57 195, .on 62 62 196 [.request_path], .on 65 90 195,
    .on 97 122 195],
  [.on 0 61 196, .on 62 62 197, .on 63 255 196],
  [.on 0 0 349 [.xml, .done], .on 1 61 196, .on 62 62 197, .on 63 255 196]]

/-- A JSON message: states 198 to 347. -/
def jsonRows : List (List Edge) := [
  [.on 32 32 199 [.request_path], .on 33 33 202, .on 36 36 202, .on 37 37 203, .on 38 46 202,
    .on 47 47 208, .on 48 57 202, .on 59 59 202, .on 61 61 202, .on 64 90 202, .on 95 95 202,
    .on 97 122 202, .on 126 126 202, .on 94 94 202 [] true, .on 123 123 202 [] true,
    .on 125 125 202 [] true],
  [.on 123 123 200 [.mark]],
  [.on 0 124 200, .on 125 125 201, .on 126 255 200],
  [.on 0 0 349 [.json, .done], .on 1 124 200, .on 125 125 201, .on 126 255 200],
  [.on 32 32 199 [.request_path], .on 33 33 202, .on 36 36 202, .on 37 37 203, .on 38 46 202,
    .on 47 47 205, .on 48 57 202, .on 59 59 202, .on 61 61 202, .on 64 90 202, .on 95 95 202,
    .on 97 122 202, .on 126 126 202, .on 94 94 202 [] true, .on 123 123 202 [] true,
    .on 125 125 202 [] true],
  [.on 48 57 204, .on 65 70 204, .on 97 102 204],
  [.on 48 57 202, .on 65 70 202, .on 97 102 202],
  [.on 32 32 199 [.request_path], .on 33 33 205, .on 36 36 205, .on 37 37 206, .on 38 59 205,
    .on 61 61 205, .on 64 90 205, .on 95 95 205, .on 97 122 205, .on 126 126 205, .on 128 255 205,
    .on 94 94 205 [] true, .on 123 123 205 [] true, .on 125 125 205 [] true],
  [.on 48 57 207, .on 65 70 207, .on 97 102 207],
  [.on 48 57 205, .on 65 70 205, .on 97 102 205],
  [.on 32 32 199 [.request_path], .on 33 33 205, .on 36 36 205, .on 37 37 206, .on 38 46 205,
    .on 47 47 209, .on 48 59 205, .on 61 61 205, .on 64 90 205, .on 95 95 205, .on 97 122 205,
    .on 126 126 205, .on 128 255 205, .on 94 94 205 [] true, .on 123 123 205 [] true,
    .on 125 125 205 [] true],
  [.on 32 32 199 [.request_path], .on 33 33 210, .on 36 36 210, .on 37 37 211, .on 38 46 210,
    .on 47 47 205, .on 48 57 210, .on 58 58 213, .on 59 59 210, .on 61 61 210, .on 64 64 217,
    .on 65 90 210, .on 91 91 222, .on 95 95 210, .on 97 122 210, .on 126 126 210,
    .on 94 94 210 [] true, .on 123 123 210 [] true, .on 125 125 210 [] true],
  [.on 32 32 199 [.request_path], .on 33 33 210, .on 36 36 210, .on 37 37 211, .on 38 46 210,
    .on 47 47 205, .on 48 57 210, .on 58 58 213, .on 59 59 210, .on 61 61 210, .on 64 64 217,
    .on 65 90 210, .on 95 95 210, .on 97 122 210, .on 126 126 210, .on 94 94 210 [] true,
    .on 123 123 210 [] true, .on 125 125 210 [] true],
  [.on 48 57 212, .on 65 70 212, .on 97 102 212],
  [.on 48 57 210, .on 65 70 210, .on 97 102 210],
  [.on 32 32 199 [.request_path], .on 33 33 214, .on 36 36 214, .on 37 37 215, .on 38 46 214,
    .on 47 47 205, .on 48 57 213, .on 58 59 214, .on 61 61 214, .on 64 64 217, .on 65 90 214,
    .on 95 95 214, .on 97 122 214, .on 126 126 214, .on 94 94 214 [] true,
    .on 123 123 214 [] true, .on 125 125 214 [] true],
  [.on 33 33 214, .on 36 36 214, .on 37 37 215, .on 38 46 214, .on 48 59 214, .on 61 61 214,
    .on 64 64 217, .on 65 90 214, .on 95 95 214, .on 97 122 214, .on 126 126 214,
    .on 94 94 214 [] true, .on 123 123 214 [] true, .on 125 125 214 [] true],
  [.on 48 57 216, .on 65 70 216, .on 97 102 216],
  [.on 48 57 214, .on 65 70 214, .on 97 102 214],
  [.on 32 32 199 [.request_path], .on 33 33 218, .on 36 36 218, .on 37 37 219, .on 38 46 218,
    .on 47 47 205, .on 48 57 218, .on 58 58 221, .on 59 59 218, .on 61 61 218, .on 65 90 218,
    .on 91 91 222, .on 95 95 218, .on 97 122 218, .on 126 126 218, .on 94 94 218 [] true,
    .on 123 123 218 [] true, .on 125 125 218 [] true],
  [.on 32 32 199 [.request_path], .on 33 33 218, .on 36 36 218, .on 37 37 219, .on 38 46 218,
    .on 47 47 205, .on 48 57 218, .on 58 58 221, .on 59 59 218, .on 61 61 218, .on 65 90 218,
    .on 95 95 218, .on 97 122 218, .on 126 126 218, .on 94 94 218 [] true,
    .on 123 123 218 [] true, .on 125 125 218 [] true],
  [.on 48 57 220, .on 65 70 220, .on 97 102 220],
  [.on 48 57 218, .on 65 70 218, .on 97 102 218],
  [.on 32 32 199 [.request_path], .on 47 47 205, .on 48 57 221],
  [.on 6 6 223, .on 48 57 266, .on 58 58 342, .on 65 70 266, .on 97 102 266, .on 118 118 344],
  [.on 48 57 224, .on 65 70 224, .on 97 102 224],
  [.on 48 57 225, .on 58 58 228, .on 65 70 225, .on 97 102 225],
  [.on 48 57 226, .on 58 58 228, .on 65 70 226, .on 97 102 226],
  [.on 48 57 227, .on 58 58 228, .on 65 70 227, .on 97 102 227],
  [.on 58 58 228],
  [.on 48 48 229, .on 49 49 259, .on 50 50 262, .on 51 57 229, .on 65 70 265, .on 97 102 265],
  [.on 46 46 230, .on 48 57 252, .on 58 58 255, .on 65 70 252, .on 97 102 252],
  [.on 48 48 231, .on 49 49 247, .on 50 50 249, .on 51 57 231],
  [.on 46 46 232],
  [.on 48 48 233, .on 49 49 242, .on 50 50 244, .on 51 57 233],
  [.on 46 46 234],
  [.on 48 48 235, .on 49 49 237, .on 50 50 239, .on 51 57 235],
  [.on 93 93 236],
  [.on 32 32 199 [.request_path], .on 47 47 205, .on 58 58 221],
  [.on 48 57 238, .on 93 93 236],
  [.on 48 57 235, .on 93 93 236],
  [.on 48 48 240, .on 53 53 241, .on 93 93 236],
  [.on 48 57 235],
  [.on 48 48 235],
  [.on 46 46 234, .on 48 57 243],
  [.on 46 46 234, .on 48 57 233],
  [.on 46 46 234, .on 48 48 245, .on 53 53 246],
  [.on 48 57 233],
  [.on 48 48 233],
  [.on 46 46 232, .on 48 57 248],
  [.on 46 46 232, .on 48 57 231],
  [.on 46 46 232, .on 48 48 250, .on 53 53 251],
  [.on 48 57 231],
  [.on 48 48 231],
  [.on 48 57 253, .on 58 58 255, .on 65 70 253, .on 97 102 253],
  [.on 48 57 254, .on 58 58 255, .on 65 70 254, .on 97 102 254],
  [.on 58 58 255],
  [.on 48 57 256, .on 65 70 256, .on 97 102 256],
  [.on 48 57 257, .on 65 70 257, .on 93 93 236, .on 97 102 257],
  [.on 48 57 258, .on 65 70 258, .on 93 93 236, .on 97 102 258],
  [.on 48 57 235, .on 65 70 235, .on 93 93 236, .on 97 102 235],
  [.on 46 46 230, .on 48 57 260, .on 58 58 255, .on 65 70 252, .on 97 102 252],
  [.on 46 46 230, .on 48 57 261, .on 58 58 255, .on 65 70 253, .on 97 102 253],
  [.on 46 46 230, .on 48 57 254, .on 58 58 255, .on 65 70 254, .on 97 102 254],
  [.on 46 46 230, .on 48 48 263, .on 49 52 252, .on 53 53 264, .on 54 57 252, .on 58 58 255,
    .on 65 70 252, .on 97 102 252],
  [.on 48 57 261, .on 58 58 255, .on 65 70 253, .on 97 102 253],
  [.on 48 48 261, .on 49 57 253, .on 58 58 255, .on 65 70 253, .on 97 102 253],
  [.on 48 57 252, .on 58 58 255, .on 65 70 252, .on 97 102 252],
  [.on 48 57 267, .on 58 58 270, .on 65 70 267, .on 97 102 267],
  [.on 48 57 268, .on 58 58 270, .on 65 70 268, .on 97 102 268],
  [.on 48 57 269, .on 58 58 270, .on 65 70 269, .on 97 102 269],
  [.on 58 58 270],
  [.on 48 57 271, .on 58 58 341, .on 65 70 271, .on 97 102 271],
  [.on 48 57 272, .on 58 58 275, .on 65 70 272, .on 97 102 272],
  [.on 48 57 273, .on 58 58 275, .on 65 70 273, .on 97 102 273],
  [.on 48 57 274, .on 58 58 275, .on 65 70 274, .on 97 102 274],
  [.on 58 58 275],
  [.on 48 57 276, .on 58 58 340, .on 65 70 276, .on 97 102 276],
  [.on 48 57 277, .on 58 58 280, .on 65 70 277, .on 97 102 277],
  [.on 48 57 278, .on 58 58 280, .on 65 70 278, .on 97 102 278],
  [.on 48 57 279, .on 58 58 280, .on 65 70 279, .on 97 102 279],
  [.on 58 58 280],
  [.on 48 57 281, .on 58 58 339, .on 65 70 281, .on 97 102 281],
  [.on 48 57 282, .on 58 58 285, .on 65 70 282, .on 97 102 282],
  [.on 48 57 283, .on 58 58 285, .on 65 70 283, .on 97 102 283],
  [.on 48 57 284, .on 58 58 285, .on 65 70 284, .on 97 102 284],
  [.on 58 58 285],
  [.on 48 57 286, .on 58 58 338, .on 65 70 286, .on 97 102 286],
  [.on 48 57 287, .on 58 58 290, .on 65 70 287, .on 97 102 287],
  [.on 48 57 288, .on 58 58 290, .on 65 70 288, .on 97 102 288],
  [.on 48 57 289, .on 58 58 290, .on 65 70 289, .on 97 102 289],
  [.on 58 58 290],
  [.on 48 57 291, .on 58 58 326, .on 65 70 291, .on 97 102 291],
  [.on 48 57 292, .on 58 58 295, .on 65 70 292, .on 97 102 292],
  [.on 48 57 293, .on 58 58 295, .on 65 70 293, .on 97 102 293],
  [.on 48 57 294, .on 58 58 295, .on 65 70 294, .on 97 102 294],
  [.on 58 58 295],
  [.on 48 57 296, .on 58 58 325, .on 65 70 296, .on 97 102 296],
  [.on 48 57 297, .on 58 58 300, .on 65 70 297, .on 97 102 297],
  [.on 48 57 298, .on 58 58 300, .on 65 70 298, .on 97 102 298],
  [.on 48 57 299, .on 58 58 300, .on 65 70 299, .on 97 102 299],
  [.on 58 58 300],
  [.on 48 57 296, .on 58 58 301, .on 65 70 296, .on 97 102 296],
  [.on 2 3 223, .on 48 48 302, .on 49 49 318, .on 50 50 321, .on 51 57 302, .on 65 70 324,
    .on 93 93 236, .on 97 102 324],
  [.on 46 46 230, .on 48 57 303, .on 58 58 306, .on 65 70 303, .on 93 93 236, .on 97 102 303],
  [.on 48 57 304, .on 58 58 306, .on 65 70 304, .on 93 93 236, .on 97 102 304],
  [.on 48 57 305, .on 58 58 306, .on 65 70 305, .on 93 93 236, .on 97 102 305],
  [.on 58 58 306, .on 93 93 236],
  [.on 48 48 307, .on 49 49 311, .on 50 50 314, .on 51 57 307, .on 65 70 317, .on 97 102 317],
  [.on 46 46 230, .on 48 57 308, .on 58 58 255, .on 65 70 308, .on 93 93 236, .on 97 102 308],
  [.on 48 57 309, .on 58 58 255, .on 65 70 309, .on 93 93 236, .on 97 102 309],
  [.on 48 57 310, .on 58 58 255, .on 65 70 310, .on 93 93 236, .on 97 102 310],
  [.on 58 58 255, .on 93 93 236],
  [.on 46 46 230, .on 48 57 312, .on 58 58 255, .on 65 70 308, .on 93 93 236, .on 97 102 308],
  [.on 46 46 230, .on 48 57 313, .on 58 58 255, .on 65 70 309, .on 93 93 236, .on 97 102 309],
  [.on 46 46 230, .on 48 57 310, .on 58 58 255, .on 65 70 310, .on 93 93 236, .on 97 102 310],
  [.on 46 46 230, .on 48 48 315, .on 49 52 308, .on 53 53 316, .on 54 57 308, .on 58 58 255,
    .on 65 70 308, .on 93 93 236, .on 97 102 308],
  [.on 48 57 313, .on 58 58 255, .on 65 70 309, .on 93 93 236, .on 97 102 309],
  [.on 48 48 313, .on 49 57 309, .on 58 58 255, .on 65 70 309, .on 93 93 236, .on 97 102 309],
  [.on 48 57 308, .on 58 58 255, .on 65 70 308, .on 93 93 236, .on 97 102 308],
  [.on 46 46 230, .on 48 57 319, .on 58 58 306, .on 65 70 303, .on 93 93 236, .on 97 102 303],
  [.on 46 46 230, .on 48 57 320, .on 58 58 306, .on 65 70 304, .on 93 93 236, .on 97 102 304],
  [.on 46 46 230, .on 48 57 305, .on 58 58 306, .on 65 70 305, .on 93 93 236, .on 97 102 305],
  [.on 46 46 230, .on 48 48 322, .on 49 52 303, .on 53 53 323, .on 54 57 303, .on 58 58 306,
    .on 65 70 303, .on 93 93 236, .on 97 102 303],
  [.on 48 57 320, .on 58 58 306, .on 65 70 304, .on 93 93 236, .on 97 102 304],
  [.on 48 48 320, .on 49 57 304, .on 58 58 306, .on 65 70 304, .on 93 93 236, .on 97 102 304],
  [.on 48 57 303, .on 58 58 306, .on 65 70 303, .on 93 93 236, .on 97 102 303],
  [.on 2 3 223, .on 48 48 302, .on 49 49 318, .on 50 50 321, .on 51 57 302, .on 65 70 324,
    .on 97 102 324],
  [.on 2 3 223, .on 48 48 327, .on 49 49 331, .on 50 50 334, .on 51 57 327, .on 65 70 337,
    .on 97 102 337],
  [.on 46 46 230, .on 48 57 328, .on 58 58 306, .on 65 70 328, .on 97 102 328],
  [.on 48 57 329, .on 58 58 306, .on 65 70 329, .on 97 102 329],
  [.on 48 57 330, .on 58 58 306, .on 65 70 330, .on 97 102 330],
  [.on 58 58 306],
  [.on 46 46 230, .on 48 57 332, .on 58 58 306, .on 65 70 328, .on 97 102 328],
  [.on 46 46 230, .on 48 57 333, .on 58 58 306, .on 65 70 329, .on 97 102 329],
  [.on 46 46 230, .on 48 57 330, .on 58 58 306, .on 65 70 330, .on 97 102 330],
  [.on 46 46 230, .on 48 48 335, .on 49 52 328, .on 53 53 336, .on 54 57 328, .on 58 58 306,
    .on 65 70 328, .on 97 102 328],
  [.on 48 57 333, .on 58 58 306, .on 65 70 329, .on 97 102 329],
  [.on 48 48 333, .on 49 57 329, .on 58 58 306, .on 65 70 329, .on 97 102 329],
  [.on 48 57 328, .on 58 58 306, .on 65 70 328, .on 97 102 328],
  [.on 2 3 223, .on 48 57 224, .on 65 70 224, .on 97 102 224],
  [.on 2 3 223],
  [.on 3 3 223],
  [.on 4 4 223],
  [.on 58 58 343],
  [.on 2 5 223, .on 48 48 302, .on 49 49 318, .on 50 50 321, .on 51 57 302, .on 65 70 324,
    .on 93 93 236, .on 97 102 324],
  [.on 48 57 345, .on 65 70 345, .on 97 102 345],
  [.on 46 46 346, .on 48 57 345, .on 65 70 345, .on 97 102 345],
  [.on 33 33 347, .on 36 36 347, .on 38 46 347, .on 48 59 347, .on 61 61 347, .on 65 90 347,
    .on 95 95 347, .on 97 122 347, .on 126 126 347, .on 94 94 347 [] true,
    .on 123 123 347 [] true, .on 125 125 347 [] true],
  [.on 33 33 347, .on 36 36 347, .on 38 46 347, .on 48 59 347, .on 61 61 347, .on 65 90 347,
    .on 93 93 236, .on 95 95 347, .on 97 122 347, .on 126 126 347, .on 94 94 347 [] true,
    .on 123 123 347 [] true, .on 125 125 347 [] true]]

/-- The final states. -/
def finalRows : List (List Edge) := [
  [.on 1 8 14, .on 10 31 14, .on 33 33 14, .on 35 39 14, .on 42 43 14, .on 45 46 14, .on 48 57 14,
    .on 58 58 15 [.write_field], .on 65 90 14, .on 94 122 14, .on 124 124 14, .on 126 126 14],
  []]

/-- The edges of each state. -/
def table : List (List Edge) :=
  requestRows ++ authorityRows ++ methodRows ++ jsonRows ++ finalRows

end Http

end Sylar
