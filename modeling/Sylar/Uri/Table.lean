import Mathlib.Data.List.Basic

/-!
# The table of the URI parser

The machine of `Uri::Create`: what each jump of the state machine in `uri.rl.cc` looks at, where it
leads, and the actions on its way. State 0 is the error state and has no edges, the machine starts
in state 451 and its final states are those from 451. The type `char` is signed: the bytes from 128
are its negative values, in the same order.

The states of an authority are there twice. Behind `//` alone the machine is in the states from 9
to 228 and from 459 to 507, and the path has no action of its own; behind a scheme it is in those
from 229 to 450 and from 511.

## Main definitions

* `Action`, `Edge`: the actions of the machine, and its edges
* `table`: the edges of each state
* `eofActions`: the actions at the end of the string
-/

namespace Sylar

namespace Uri

/-- The actions of the machine. -/
inductive Action
  | marku
  | markh
  | save_scheme
  | save_port
  | save_userinfo
  | save_host
  | save_path
  | save_query
  | save_fragment
  deriving DecidableEq, Repr

/-- An edge for the bytes from `lo` to `hi`. -/
structure Edge where
  lo : ℕ
  hi : ℕ
  target : ℕ
  actions : List Action
  deriving DecidableEq

def Edge.on (lo hi target : ℕ) (actions : List Action := []) : Edge where
  lo := lo
  hi := hi
  target := target
  actions := actions

/-- The error state, and the percent encodings of fragments, paths and queries: states 0 to 8. -/
def percentRows : List (List Edge) := [
  [],
  [.on 48 57 2, .on 65 70 2, .on 97 102 2],
  [.on 48 57 454, .on 65 70 454, .on 97 102 454],
  [.on 48 57 4, .on 65 70 4, .on 97 102 4],
  [.on 48 57 452, .on 65 70 452, .on 97 102 452],
  [.on 48 57 6, .on 65 70 6, .on 97 102 6],
  [.on 48 57 455, .on 65 70 455, .on 97 102 455],
  [.on 48 57 8, .on 65 70 8, .on 97 102 8],
  [.on 48 57 457, .on 65 70 457, .on 97 102 457]]

/-- Addresses and percent encodings in the authority of a relative reference: states 9 to 228. -/
def relativeRows : List (List Edge) := [
  [.on 48 52 10],
  [.on 48 57 11],
  [.on 46 46 12],
  [.on 2 2 13, .on 48 48 15, .on 49 49 27, .on 50 50 29, .on 51 57 28],
  [.on 48 52 14],
  [.on 48 57 15],
  [.on 46 46 16],
  [.on 2 2 17, .on 48 48 19, .on 49 49 23, .on 50 50 25, .on 51 57 24],
  [.on 48 52 18],
  [.on 48 57 19],
  [.on 46 46 20],
  [.on 2 2 21, .on 48 48 460, .on 49 49 463, .on 50 50 465, .on 51 57 464],
  [.on 48 52 22],
  [.on 48 57 460],
  [.on 46 46 20, .on 48 57 24],
  [.on 46 46 20, .on 48 57 19],
  [.on 46 46 20, .on 48 52 19, .on 53 53 26, .on 54 57 19],
  [.on 46 46 20, .on 48 53 19],
  [.on 46 46 16, .on 48 57 28],
  [.on 46 46 16, .on 48 57 15],
  [.on 46 46 16, .on 48 52 15, .on 53 53 30, .on 54 57 15],
  [.on 46 46 16, .on 48 53 15],
  [.on 48 57 32, .on 65 70 32, .on 97 102 32],
  [.on 48 57 467, .on 65 70 467, .on 97 102 467],
  [.on 33 33 33, .on 36 36 33, .on 37 37 34, .on 38 46 33, .on 48 59 33, .on 61 61 33,
    .on 64 64 469 [.save_userinfo], .on 65 90 33, .on 95 95 33, .on 97 122 33, .on 126 126 33],
  [.on 48 57 35, .on 65 70 35, .on 97 102 35],
  [.on 48 57 33, .on 65 70 33, .on 97 102 33],
  [.on 48 57 37, .on 65 70 37, .on 97 102 37],
  [.on 48 57 470, .on 65 70 470, .on 97 102 470],
  [.on 48 57 39, .on 58 58 146, .on 65 70 39, .on 97 102 39, .on 118 118 225],
  [.on 48 57 40, .on 58 58 43, .on 65 70 40, .on 97 102 40],
  [.on 48 57 41, .on 58 58 43, .on 65 70 41, .on 97 102 41],
  [.on 48 57 42, .on 58 58 43, .on 65 70 42, .on 97 102 42],
  [.on 58 58 43],
  [.on 48 57 44, .on 58 58 141, .on 65 70 44, .on 97 102 44],
  [.on 48 57 45, .on 58 58 48, .on 65 70 45, .on 97 102 45],
  [.on 48 57 46, .on 58 58 48, .on 65 70 46, .on 97 102 46],
  [.on 48 57 47, .on 58 58 48, .on 65 70 47, .on 97 102 47],
  [.on 58 58 48],
  [.on 48 57 49, .on 58 58 136, .on 65 70 49, .on 97 102 49],
  [.on 48 57 50, .on 58 58 53, .on 65 70 50, .on 97 102 50],
  [.on 48 57 51, .on 58 58 53, .on 65 70 51, .on 97 102 51],
  [.on 48 57 52, .on 58 58 53, .on 65 70 52, .on 97 102 52],
  [.on 58 58 53],
  [.on 48 57 54, .on 58 58 131, .on 65 70 54, .on 97 102 54],
  [.on 48 57 55, .on 58 58 58, .on 65 70 55, .on 97 102 55],
  [.on 48 57 56, .on 58 58 58, .on 65 70 56, .on 97 102 56],
  [.on 48 57 57, .on 58 58 58, .on 65 70 57, .on 97 102 57],
  [.on 58 58 58],
  [.on 48 57 59, .on 58 58 126, .on 65 70 59, .on 97 102 59],
  [.on 48 57 60, .on 58 58 63, .on 65 70 60, .on 97 102 60],
  [.on 48 57 61, .on 58 58 63, .on 65 70 61, .on 97 102 61],
  [.on 48 57 62, .on 58 58 63, .on 65 70 62, .on 97 102 62],
  [.on 58 58 63],
  [.on 48 57 64, .on 58 58 113, .on 65 70 64, .on 97 102 64],
  [.on 48 57 65, .on 58 58 68, .on 65 70 65, .on 97 102 65],
  [.on 48 57 66, .on 58 58 68, .on 65 70 66, .on 97 102 66],
  [.on 48 57 67, .on 58 58 68, .on 65 70 67, .on 97 102 67],
  [.on 58 58 68],
  [.on 2 2 69, .on 48 48 96, .on 49 49 104, .on 50 50 107, .on 51 57 110, .on 58 58 111,
    .on 65 70 112, .on 97 102 112],
  [.on 48 52 70],
  [.on 48 57 71],
  [.on 46 46 72],
  [.on 2 2 73, .on 48 48 75, .on 49 49 92, .on 50 50 94, .on 51 57 93],
  [.on 48 52 74],
  [.on 48 57 75],
  [.on 46 46 76],
  [.on 2 2 77, .on 48 48 79, .on 49 49 88, .on 50 50 90, .on 51 57 89],
  [.on 48 52 78],
  [.on 48 57 79],
  [.on 46 46 80],
  [.on 2 2 81, .on 48 48 83, .on 49 49 84, .on 50 50 86, .on 51 57 85],
  [.on 48 52 82],
  [.on 48 57 83],
  [.on 93 93 460],
  [.on 48 57 85, .on 93 93 460],
  [.on 48 57 83, .on 93 93 460],
  [.on 48 52 83, .on 53 53 87, .on 54 57 83, .on 93 93 460],
  [.on 48 53 83, .on 93 93 460],
  [.on 46 46 80, .on 48 57 89],
  [.on 46 46 80, .on 48 57 79],
  [.on 46 46 80, .on 48 52 79, .on 53 53 91, .on 54 57 79],
  [.on 46 46 80, .on 48 53 79],
  [.on 46 46 76, .on 48 57 93],
  [.on 46 46 76, .on 48 57 75],
  [.on 46 46 76, .on 48 52 75, .on 53 53 95, .on 54 57 75],
  [.on 46 46 76, .on 48 53 75],
  [.on 46 46 72, .on 48 57 97, .on 58 58 100, .on 65 70 97, .on 97 102 97],
  [.on 48 57 98, .on 58 58 100, .on 65 70 98, .on 97 102 98],
  [.on 48 57 99, .on 58 58 100, .on 65 70 99, .on 97 102 99],
  [.on 58 58 100],
  [.on 48 57 101, .on 58 58 83, .on 65 70 101, .on 97 102 101],
  [.on 48 57 102, .on 65 70 102, .on 93 93 460, .on 97 102 102],
  [.on 48 57 103, .on 65 70 103, .on 93 93 460, .on 97 102 103],
  [.on 48 57 83, .on 65 70 83, .on 93 93 460, .on 97 102 83],
  [.on 46 46 72, .on 48 57 105, .on 58 58 100, .on 65 70 97, .on 97 102 97],
  [.on 46 46 72, .on 48 57 106, .on 58 58 100, .on 65 70 98, .on 97 102 98],
  [.on 46 46 72, .on 48 57 99, .on 58 58 100, .on 65 70 99, .on 97 102 99],
  [.on 46 46 72, .on 48 52 108, .on 53 53 109, .on 54 57 108, .on 58 58 100, .on 65 70 97,
    .on 97 102 97],
  [.on 46 46 72, .on 48 57 98, .on 58 58 100, .on 65 70 98, .on 97 102 98],
  [.on 46 46 72, .on 48 53 106, .on 54 57 98, .on 58 58 100, .on 65 70 98, .on 97 102 98],
  [.on 46 46 72, .on 48 57 108, .on 58 58 100, .on 65 70 97, .on 97 102 97],
  [.on 48 57 101, .on 65 70 101, .on 97 102 101],
  [.on 48 57 97, .on 58 58 100, .on 65 70 97, .on 97 102 97],
  [.on 2 2 69, .on 48 48 114, .on 49 49 118, .on 50 50 121, .on 51 57 124, .on 65 70 125,
    .on 97 102 125],
  [.on 46 46 72, .on 48 57 115, .on 58 58 111, .on 65 70 115, .on 97 102 115],
  [.on 48 57 116, .on 58 58 111, .on 65 70 116, .on 97 102 116],
  [.on 48 57 117, .on 58 58 111, .on 65 70 117, .on 97 102 117],
  [.on 58 58 111],
  [.on 46 46 72, .on 48 57 119, .on 58 58 111, .on 65 70 115, .on 97 102 115],
  [.on 46 46 72, .on 48 57 120, .on 58 58 111, .on 65 70 116, .on 97 102 116],
  [.on 46 46 72, .on 48 57 117, .on 58 58 111, .on 65 70 117, .on 97 102 117],
  [.on 46 46 72, .on 48 52 122, .on 53 53 123, .on 54 57 122, .on 58 58 111, .on 65 70 115,
    .on 97 102 115],
  [.on 46 46 72, .on 48 57 116, .on 58 58 111, .on 65 70 116, .on 97 102 116],
  [.on 46 46 72, .on 48 53 120, .on 54 57 116, .on 58 58 111, .on 65 70 116, .on 97 102 116],
  [.on 46 46 72, .on 48 57 122, .on 58 58 111, .on 65 70 115, .on 97 102 115],
  [.on 48 57 115, .on 58 58 111, .on 65 70 115, .on 97 102 115],
  [.on 48 57 127, .on 65 70 127, .on 97 102 127],
  [.on 48 57 128, .on 58 58 113, .on 65 70 128, .on 97 102 128],
  [.on 48 57 129, .on 58 58 113, .on 65 70 129, .on 97 102 129],
  [.on 48 57 130, .on 58 58 113, .on 65 70 130, .on 97 102 130],
  [.on 58 58 113],
  [.on 48 57 132, .on 65 70 132, .on 97 102 132],
  [.on 48 57 133, .on 58 58 126, .on 65 70 133, .on 97 102 133],
  [.on 48 57 134, .on 58 58 126, .on 65 70 134, .on 97 102 134],
  [.on 48 57 135, .on 58 58 126, .on 65 70 135, .on 97 102 135],
  [.on 58 58 126],
  [.on 48 57 137, .on 65 70 137, .on 97 102 137],
  [.on 48 57 138, .on 58 58 131, .on 65 70 138, .on 97 102 138],
  [.on 48 57 139, .on 58 58 131, .on 65 70 139, .on 97 102 139],
  [.on 48 57 140, .on 58 58 131, .on 65 70 140, .on 97 102 140],
  [.on 58 58 131],
  [.on 48 57 142, .on 65 70 142, .on 97 102 142],
  [.on 48 57 143, .on 58 58 136, .on 65 70 143, .on 97 102 143],
  [.on 48 57 144, .on 58 58 136, .on 65 70 144, .on 97 102 144],
  [.on 48 57 145, .on 58 58 136, .on 65 70 145, .on 97 102 145],
  [.on 58 58 136],
  [.on 58 58 147],
  [.on 2 2 69, .on 48 48 148, .on 49 49 217, .on 50 50 220, .on 51 57 223, .on 65 70 224,
    .on 93 93 460, .on 97 102 224],
  [.on 46 46 72, .on 48 57 149, .on 58 58 152, .on 65 70 149, .on 93 93 460, .on 97 102 149],
  [.on 48 57 150, .on 58 58 152, .on 65 70 150, .on 93 93 460, .on 97 102 150],
  [.on 48 57 151, .on 58 58 152, .on 65 70 151, .on 93 93 460, .on 97 102 151],
  [.on 58 58 152, .on 93 93 460],
  [.on 2 2 69, .on 48 48 153, .on 49 49 209, .on 50 50 212, .on 51 57 215, .on 65 70 216,
    .on 97 102 216],
  [.on 46 46 72, .on 48 57 154, .on 58 58 157, .on 65 70 154, .on 93 93 460, .on 97 102 154],
  [.on 48 57 155, .on 58 58 157, .on 65 70 155, .on 93 93 460, .on 97 102 155],
  [.on 48 57 156, .on 58 58 157, .on 65 70 156, .on 93 93 460, .on 97 102 156],
  [.on 58 58 157, .on 93 93 460],
  [.on 2 2 69, .on 48 48 158, .on 49 49 201, .on 50 50 204, .on 51 57 207, .on 65 70 208,
    .on 97 102 208],
  [.on 46 46 72, .on 48 57 159, .on 58 58 162, .on 65 70 159, .on 93 93 460, .on 97 102 159],
  [.on 48 57 160, .on 58 58 162, .on 65 70 160, .on 93 93 460, .on 97 102 160],
  [.on 48 57 161, .on 58 58 162, .on 65 70 161, .on 93 93 460, .on 97 102 161],
  [.on 58 58 162, .on 93 93 460],
  [.on 2 2 69, .on 48 48 163, .on 49 49 193, .on 50 50 196, .on 51 57 199, .on 65 70 200,
    .on 97 102 200],
  [.on 46 46 72, .on 48 57 164, .on 58 58 167, .on 65 70 164, .on 93 93 460, .on 97 102 164],
  [.on 48 57 165, .on 58 58 167, .on 65 70 165, .on 93 93 460, .on 97 102 165],
  [.on 48 57 166, .on 58 58 167, .on 65 70 166, .on 93 93 460, .on 97 102 166],
  [.on 58 58 167, .on 93 93 460],
  [.on 2 2 69, .on 48 48 168, .on 49 49 185, .on 50 50 188, .on 51 57 191, .on 65 70 192,
    .on 97 102 192],
  [.on 46 46 72, .on 48 57 169, .on 58 58 172, .on 65 70 169, .on 93 93 460, .on 97 102 169],
  [.on 48 57 170, .on 58 58 172, .on 65 70 170, .on 93 93 460, .on 97 102 170],
  [.on 48 57 171, .on 58 58 172, .on 65 70 171, .on 93 93 460, .on 97 102 171],
  [.on 58 58 172, .on 93 93 460],
  [.on 2 2 69, .on 48 48 173, .on 49 49 177, .on 50 50 180, .on 51 57 183, .on 65 70 184,
    .on 97 102 184],
  [.on 46 46 72, .on 48 57 174, .on 58 58 111, .on 65 70 174, .on 93 93 460, .on 97 102 174],
  [.on 48 57 175, .on 58 58 111, .on 65 70 175, .on 93 93 460, .on 97 102 175],
  [.on 48 57 176, .on 58 58 111, .on 65 70 176, .on 93 93 460, .on 97 102 176],
  [.on 58 58 111, .on 93 93 460],
  [.on 46 46 72, .on 48 57 178, .on 58 58 111, .on 65 70 174, .on 93 93 460, .on 97 102 174],
  [.on 46 46 72, .on 48 57 179, .on 58 58 111, .on 65 70 175, .on 93 93 460, .on 97 102 175],
  [.on 46 46 72, .on 48 57 176, .on 58 58 111, .on 65 70 176, .on 93 93 460, .on 97 102 176],
  [.on 46 46 72, .on 48 52 181, .on 53 53 182, .on 54 57 181, .on 58 58 111, .on 65 70 174,
    .on 93 93 460, .on 97 102 174],
  [.on 46 46 72, .on 48 57 175, .on 58 58 111, .on 65 70 175, .on 93 93 460, .on 97 102 175],
  [.on 46 46 72, .on 48 53 179, .on 54 57 175, .on 58 58 111, .on 65 70 175, .on 93 93 460,
    .on 97 102 175],
  [.on 46 46 72, .on 48 57 181, .on 58 58 111, .on 65 70 174, .on 93 93 460, .on 97 102 174],
  [.on 48 57 174, .on 58 58 111, .on 65 70 174, .on 93 93 460, .on 97 102 174],
  [.on 46 46 72, .on 48 57 186, .on 58 58 172, .on 65 70 169, .on 93 93 460, .on 97 102 169],
  [.on 46 46 72, .on 48 57 187, .on 58 58 172, .on 65 70 170, .on 93 93 460, .on 97 102 170],
  [.on 46 46 72, .on 48 57 171, .on 58 58 172, .on 65 70 171, .on 93 93 460, .on 97 102 171],
  [.on 46 46 72, .on 48 52 189, .on 53 53 190, .on 54 57 189, .on 58 58 172, .on 65 70 169,
    .on 93 93 460, .on 97 102 169],
  [.on 46 46 72, .on 48 57 170, .on 58 58 172, .on 65 70 170, .on 93 93 460, .on 97 102 170],
  [.on 46 46 72, .on 48 53 187, .on 54 57 170, .on 58 58 172, .on 65 70 170, .on 93 93 460,
    .on 97 102 170],
  [.on 46 46 72, .on 48 57 189, .on 58 58 172, .on 65 70 169, .on 93 93 460, .on 97 102 169],
  [.on 48 57 169, .on 58 58 172, .on 65 70 169, .on 93 93 460, .on 97 102 169],
  [.on 46 46 72, .on 48 57 194, .on 58 58 167, .on 65 70 164, .on 93 93 460, .on 97 102 164],
  [.on 46 46 72, .on 48 57 195, .on 58 58 167, .on 65 70 165, .on 93 93 460, .on 97 102 165],
  [.on 46 46 72, .on 48 57 166, .on 58 58 167, .on 65 70 166, .on 93 93 460, .on 97 102 166],
  [.on 46 46 72, .on 48 52 197, .on 53 53 198, .on 54 57 197, .on 58 58 167, .on 65 70 164,
    .on 93 93 460, .on 97 102 164],
  [.on 46 46 72, .on 48 57 165, .on 58 58 167, .on 65 70 165, .on 93 93 460, .on 97 102 165],
  [.on 46 46 72, .on 48 53 195, .on 54 57 165, .on 58 58 167, .on 65 70 165, .on 93 93 460,
    .on 97 102 165],
  [.on 46 46 72, .on 48 57 197, .on 58 58 167, .on 65 70 164, .on 93 93 460, .on 97 102 164],
  [.on 48 57 164, .on 58 58 167, .on 65 70 164, .on 93 93 460, .on 97 102 164],
  [.on 46 46 72, .on 48 57 202, .on 58 58 162, .on 65 70 159, .on 93 93 460, .on 97 102 159],
  [.on 46 46 72, .on 48 57 203, .on 58 58 162, .on 65 70 160, .on 93 93 460, .on 97 102 160],
  [.on 46 46 72, .on 48 57 161, .on 58 58 162, .on 65 70 161, .on 93 93 460, .on 97 102 161],
  [.on 46 46 72, .on 48 52 205, .on 53 53 206, .on 54 57 205, .on 58 58 162, .on 65 70 159,
    .on 93 93 460, .on 97 102 159],
  [.on 46 46 72, .on 48 57 160, .on 58 58 162, .on 65 70 160, .on 93 93 460, .on 97 102 160],
  [.on 46 46 72, .on 48 53 203, .on 54 57 160, .on 58 58 162, .on 65 70 160, .on 93 93 460,
    .on 97 102 160],
  [.on 46 46 72, .on 48 57 205, .on 58 58 162, .on 65 70 159, .on 93 93 460, .on 97 102 159],
  [.on 48 57 159, .on 58 58 162, .on 65 70 159, .on 93 93 460, .on 97 102 159],
  [.on 46 46 72, .on 48 57 210, .on 58 58 157, .on 65 70 154, .on 93 93 460, .on 97 102 154],
  [.on 46 46 72, .on 48 57 211, .on 58 58 157, .on 65 70 155, .on 93 93 460, .on 97 102 155],
  [.on 46 46 72, .on 48 57 156, .on 58 58 157, .on 65 70 156, .on 93 93 460, .on 97 102 156],
  [.on 46 46 72, .on 48 52 213, .on 53 53 214, .on 54 57 213, .on 58 58 157, .on 65 70 154,
    .on 93 93 460, .on 97 102 154],
  [.on 46 46 72, .on 48 57 155, .on 58 58 157, .on 65 70 155, .on 93 93 460, .on 97 102 155],
  [.on 46 46 72, .on 48 53 211, .on 54 57 155, .on 58 58 157, .on 65 70 155, .on 93 93 460,
    .on 97 102 155],
  [.on 46 46 72, .on 48 57 213, .on 58 58 157, .on 65 70 154, .on 93 93 460, .on 97 102 154],
  [.on 48 57 154, .on 58 58 157, .on 65 70 154, .on 93 93 460, .on 97 102 154],
  [.on 46 46 72, .on 48 57 218, .on 58 58 152, .on 65 70 149, .on 93 93 460, .on 97 102 149],
  [.on 46 46 72, .on 48 57 219, .on 58 58 152, .on 65 70 150, .on 93 93 460, .on 97 102 150],
  [.on 46 46 72, .on 48 57 151, .on 58 58 152, .on 65 70 151, .on 93 93 460, .on 97 102 151],
  [.on 46 46 72, .on 48 52 221, .on 53 53 222, .on 54 57 221, .on 58 58 152, .on 65 70 149,
    .on 93 93 460, .on 97 102 149],
  [.on 46 46 72, .on 48 57 150, .on 58 58 152, .on 65 70 150, .on 93 93 460, .on 97 102 150],
  [.on 46 46 72, .on 48 53 219, .on 54 57 150, .on 58 58 152, .on 65 70 150, .on 93 93 460,
    .on 97 102 150],
  [.on 46 46 72, .on 48 57 221, .on 58 58 152, .on 65 70 149, .on 93 93 460, .on 97 102 149],
  [.on 48 57 149, .on 58 58 152, .on 65 70 149, .on 93 93 460, .on 97 102 149],
  [.on 48 57 226, .on 65 70 226, .on 97 102 226],
  [.on 46 46 227, .on 48 57 226, .on 65 70 226, .on 97 102 226],
  [.on 33 33 228, .on 36 36 228, .on 38 46 228, .on 48 59 228, .on 61 61 228, .on 65 90 228,
    .on 95 95 228, .on 97 122 228, .on 126 126 228],
  [.on 33 33 228, .on 36 36 228, .on 38 46 228, .on 48 59 228, .on 61 61 228, .on 65 90 228,
    .on 93 93 460, .on 95 95 228, .on 97 122 228, .on 126 126 228]]

/-- Addresses and percent encodings in the authority of a URI: states 229 to 450. -/
def hostRows : List (List Edge) := [
  [.on 48 52 230],
  [.on 48 57 231],
  [.on 46 46 232],
  [.on 2 2 233, .on 48 48 235, .on 49 49 249, .on 50 50 251, .on 51 57 250],
  [.on 48 52 234],
  [.on 48 57 235],
  [.on 46 46 236],
  [.on 2 2 237, .on 48 48 239, .on 49 49 245, .on 50 50 247, .on 51 57 246],
  [.on 48 52 238],
  [.on 48 57 239],
  [.on 46 46 240],
  [.on 2 2 241, .on 48 48 512, .on 49 49 516, .on 50 50 518, .on 51 57 517],
  [.on 48 52 242],
  [.on 48 57 512],
  [.on 48 57 244, .on 65 70 244, .on 97 102 244],
  [.on 48 57 513, .on 65 70 513, .on 97 102 513],
  [.on 46 46 240, .on 48 57 246],
  [.on 46 46 240, .on 48 57 239],
  [.on 46 46 240, .on 48 52 239, .on 53 53 248, .on 54 57 239],
  [.on 46 46 240, .on 48 53 239],
  [.on 46 46 236, .on 48 57 250],
  [.on 46 46 236, .on 48 57 235],
  [.on 46 46 236, .on 48 52 235, .on 53 53 252, .on 54 57 235],
  [.on 46 46 236, .on 48 53 235],
  [.on 48 57 254, .on 65 70 254, .on 97 102 254],
  [.on 48 57 520, .on 65 70 520, .on 97 102 520],
  [.on 33 33 255, .on 36 36 255, .on 37 37 256, .on 38 46 255, .on 48 59 255, .on 61 61 255,
    .on 64 64 522 [.save_userinfo], .on 65 90 255, .on 95 95 255, .on 97 122 255,
    .on 126 126 255],
  [.on 48 57 257, .on 65 70 257, .on 97 102 257],
  [.on 48 57 255, .on 65 70 255, .on 97 102 255],
  [.on 48 57 259, .on 65 70 259, .on 97 102 259],
  [.on 48 57 523, .on 65 70 523, .on 97 102 523],
  [.on 48 57 261, .on 58 58 368, .on 65 70 261, .on 97 102 261, .on 118 118 447],
  [.on 48 57 262, .on 58 58 265, .on 65 70 262, .on 97 102 262],
  [.on 48 57 263, .on 58 58 265, .on 65 70 263, .on 97 102 263],
  [.on 48 57 264, .on 58 58 265, .on 65 70 264, .on 97 102 264],
  [.on 58 58 265],
  [.on 48 57 266, .on 58 58 363, .on 65 70 266, .on 97 102 266],
  [.on 48 57 267, .on 58 58 270, .on 65 70 267, .on 97 102 267],
  [.on 48 57 268, .on 58 58 270, .on 65 70 268, .on 97 102 268],
  [.on 48 57 269, .on 58 58 270, .on 65 70 269, .on 97 102 269],
  [.on 58 58 270],
  [.on 48 57 271, .on 58 58 358, .on 65 70 271, .on 97 102 271],
  [.on 48 57 272, .on 58 58 275, .on 65 70 272, .on 97 102 272],
  [.on 48 57 273, .on 58 58 275, .on 65 70 273, .on 97 102 273],
  [.on 48 57 274, .on 58 58 275, .on 65 70 274, .on 97 102 274],
  [.on 58 58 275],
  [.on 48 57 276, .on 58 58 353, .on 65 70 276, .on 97 102 276],
  [.on 48 57 277, .on 58 58 280, .on 65 70 277, .on 97 102 277],
  [.on 48 57 278, .on 58 58 280, .on 65 70 278, .on 97 102 278],
  [.on 48 57 279, .on 58 58 280, .on 65 70 279, .on 97 102 279],
  [.on 58 58 280],
  [.on 48 57 281, .on 58 58 348, .on 65 70 281, .on 97 102 281],
  [.on 48 57 282, .on 58 58 285, .on 65 70 282, .on 97 102 282],
  [.on 48 57 283, .on 58 58 285, .on 65 70 283, .on 97 102 283],
  [.on 48 57 284, .on 58 58 285, .on 65 70 284, .on 97 102 284],
  [.on 58 58 285],
  [.on 48 57 286, .on 58 58 335, .on 65 70 286, .on 97 102 286],
  [.on 48 57 287, .on 58 58 290, .on 65 70 287, .on 97 102 287],
  [.on 48 57 288, .on 58 58 290, .on 65 70 288, .on 97 102 288],
  [.on 48 57 289, .on 58 58 290, .on 65 70 289, .on 97 102 289],
  [.on 58 58 290],
  [.on 2 2 291, .on 48 48 318, .on 49 49 326, .on 50 50 329, .on 51 57 332, .on 58 58 333,
    .on 65 70 334, .on 97 102 334],
  [.on 48 52 292],
  [.on 48 57 293],
  [.on 46 46 294],
  [.on 2 2 295, .on 48 48 297, .on 49 49 314, .on 50 50 316, .on 51 57 315],
  [.on 48 52 296],
  [.on 48 57 297],
  [.on 46 46 298],
  [.on 2 2 299, .on 48 48 301, .on 49 49 310, .on 50 50 312, .on 51 57 311],
  [.on 48 52 300],
  [.on 48 57 301],
  [.on 46 46 302],
  [.on 2 2 303, .on 48 48 305, .on 49 49 306, .on 50 50 308, .on 51 57 307],
  [.on 48 52 304],
  [.on 48 57 305],
  [.on 93 93 512],
  [.on 48 57 307, .on 93 93 512],
  [.on 48 57 305, .on 93 93 512],
  [.on 48 52 305, .on 53 53 309, .on 54 57 305, .on 93 93 512],
  [.on 48 53 305, .on 93 93 512],
  [.on 46 46 302, .on 48 57 311],
  [.on 46 46 302, .on 48 57 301],
  [.on 46 46 302, .on 48 52 301, .on 53 53 313, .on 54 57 301],
  [.on 46 46 302, .on 48 53 301],
  [.on 46 46 298, .on 48 57 315],
  [.on 46 46 298, .on 48 57 297],
  [.on 46 46 298, .on 48 52 297, .on 53 53 317, .on 54 57 297],
  [.on 46 46 298, .on 48 53 297],
  [.on 46 46 294, .on 48 57 319, .on 58 58 322, .on 65 70 319, .on 97 102 319],
  [.on 48 57 320, .on 58 58 322, .on 65 70 320, .on 97 102 320],
  [.on 48 57 321, .on 58 58 322, .on 65 70 321, .on 97 102 321],
  [.on 58 58 322],
  [.on 48 57 323, .on 58 58 305, .on 65 70 323, .on 97 102 323],
  [.on 48 57 324, .on 65 70 324, .on 93 93 512, .on 97 102 324],
  [.on 48 57 325, .on 65 70 325, .on 93 93 512, .on 97 102 325],
  [.on 48 57 305, .on 65 70 305, .on 93 93 512, .on 97 102 305],
  [.on 46 46 294, .on 48 57 327, .on 58 58 322, .on 65 70 319, .on 97 102 319],
  [.on 46 46 294, .on 48 57 328, .on 58 58 322, .on 65 70 320, .on 97 102 320],
  [.on 46 46 294, .on 48 57 321, .on 58 58 322, .on 65 70 321, .on 97 102 321],
  [.on 46 46 294, .on 48 52 330, .on 53 53 331, .on 54 57 330, .on 58 58 322, .on 65 70 319,
    .on 97 102 319],
  [.on 46 46 294, .on 48 57 320, .on 58 58 322, .on 65 70 320, .on 97 102 320],
  [.on 46 46 294, .on 48 53 328, .on 54 57 320, .on 58 58 322, .on 65 70 320, .on 97 102 320],
  [.on 46 46 294, .on 48 57 330, .on 58 58 322, .on 65 70 319, .on 97 102 319],
  [.on 48 57 323, .on 65 70 323, .on 97 102 323],
  [.on 48 57 319, .on 58 58 322, .on 65 70 319, .on 97 102 319],
  [.on 2 2 291, .on 48 48 336, .on 49 49 340, .on 50 50 343, .on 51 57 346, .on 65 70 347,
    .on 97 102 347],
  [.on 46 46 294, .on 48 57 337, .on 58 58 333, .on 65 70 337, .on 97 102 337],
  [.on 48 57 338, .on 58 58 333, .on 65 70 338, .on 97 102 338],
  [.on 48 57 339, .on 58 58 333, .on 65 70 339, .on 97 102 339],
  [.on 58 58 333],
  [.on 46 46 294, .on 48 57 341, .on 58 58 333, .on 65 70 337, .on 97 102 337],
  [.on 46 46 294, .on 48 57 342, .on 58 58 333, .on 65 70 338, .on 97 102 338],
  [.on 46 46 294, .on 48 57 339, .on 58 58 333, .on 65 70 339, .on 97 102 339],
  [.on 46 46 294, .on 48 52 344, .on 53 53 345, .on 54 57 344, .on 58 58 333, .on 65 70 337,
    .on 97 102 337],
  [.on 46 46 294, .on 48 57 338, .on 58 58 333, .on 65 70 338, .on 97 102 338],
  [.on 46 46 294, .on 48 53 342, .on 54 57 338, .on 58 58 333, .on 65 70 338, .on 97 102 338],
  [.on 46 46 294, .on 48 57 344, .on 58 58 333, .on 65 70 337, .on 97 102 337],
  [.on 48 57 337, .on 58 58 333, .on 65 70 337, .on 97 102 337],
  [.on 48 57 349, .on 65 70 349, .on 97 102 349],
  [.on 48 57 350, .on 58 58 335, .on 65 70 350, .on 97 102 350],
  [.on 48 57 351, .on 58 58 335, .on 65 70 351, .on 97 102 351],
  [.on 48 57 352, .on 58 58 335, .on 65 70 352, .on 97 102 352],
  [.on 58 58 335],
  [.on 48 57 354, .on 65 70 354, .on 97 102 354],
  [.on 48 57 355, .on 58 58 348, .on 65 70 355, .on 97 102 355],
  [.on 48 57 356, .on 58 58 348, .on 65 70 356, .on 97 102 356],
  [.on 48 57 357, .on 58 58 348, .on 65 70 357, .on 97 102 357],
  [.on 58 58 348],
  [.on 48 57 359, .on 65 70 359, .on 97 102 359],
  [.on 48 57 360, .on 58 58 353, .on 65 70 360, .on 97 102 360],
  [.on 48 57 361, .on 58 58 353, .on 65 70 361, .on 97 102 361],
  [.on 48 57 362, .on 58 58 353, .on 65 70 362, .on 97 102 362],
  [.on 58 58 353],
  [.on 48 57 364, .on 65 70 364, .on 97 102 364],
  [.on 48 57 365, .on 58 58 358, .on 65 70 365, .on 97 102 365],
  [.on 48 57 366, .on 58 58 358, .on 65 70 366, .on 97 102 366],
  [.on 48 57 367, .on 58 58 358, .on 65 70 367, .on 97 102 367],
  [.on 58 58 358],
  [.on 58 58 369],
  [.on 2 2 291, .on 48 48 370, .on 49 49 439, .on 50 50 442, .on 51 57 445, .on 65 70 446,
    .on 93 93 512, .on 97 102 446],
  [.on 46 46 294, .on 48 57 371, .on 58 58 374, .on 65 70 371, .on 93 93 512, .on 97 102 371],
  [.on 48 57 372, .on 58 58 374, .on 65 70 372, .on 93 93 512, .on 97 102 372],
  [.on 48 57 373, .on 58 58 374, .on 65 70 373, .on 93 93 512, .on 97 102 373],
  [.on 58 58 374, .on 93 93 512],
  [.on 2 2 291, .on 48 48 375, .on 49 49 431, .on 50 50 434, .on 51 57 437, .on 65 70 438,
    .on 97 102 438],
  [.on 46 46 294, .on 48 57 376, .on 58 58 379, .on 65 70 376, .on 93 93 512, .on 97 102 376],
  [.on 48 57 377, .on 58 58 379, .on 65 70 377, .on 93 93 512, .on 97 102 377],
  [.on 48 57 378, .on 58 58 379, .on 65 70 378, .on 93 93 512, .on 97 102 378],
  [.on 58 58 379, .on 93 93 512],
  [.on 2 2 291, .on 48 48 380, .on 49 49 423, .on 50 50 426, .on 51 57 429, .on 65 70 430,
    .on 97 102 430],
  [.on 46 46 294, .on 48 57 381, .on 58 58 384, .on 65 70 381, .on 93 93 512, .on 97 102 381],
  [.on 48 57 382, .on 58 58 384, .on 65 70 382, .on 93 93 512, .on 97 102 382],
  [.on 48 57 383, .on 58 58 384, .on 65 70 383, .on 93 93 512, .on 97 102 383],
  [.on 58 58 384, .on 93 93 512],
  [.on 2 2 291, .on 48 48 385, .on 49 49 415, .on 50 50 418, .on 51 57 421, .on 65 70 422,
    .on 97 102 422],
  [.on 46 46 294, .on 48 57 386, .on 58 58 389, .on 65 70 386, .on 93 93 512, .on 97 102 386],
  [.on 48 57 387, .on 58 58 389, .on 65 70 387, .on 93 93 512, .on 97 102 387],
  [.on 48 57 388, .on 58 58 389, .on 65 70 388, .on 93 93 512, .on 97 102 388],
  [.on 58 58 389, .on 93 93 512],
  [.on 2 2 291, .on 48 48 390, .on 49 49 407, .on 50 50 410, .on 51 57 413, .on 65 70 414,
    .on 97 102 414],
  [.on 46 46 294, .on 48 57 391, .on 58 58 394, .on 65 70 391, .on 93 93 512, .on 97 102 391],
  [.on 48 57 392, .on 58 58 394, .on 65 70 392, .on 93 93 512, .on 97 102 392],
  [.on 48 57 393, .on 58 58 394, .on 65 70 393, .on 93 93 512, .on 97 102 393],
  [.on 58 58 394, .on 93 93 512],
  [.on 2 2 291, .on 48 48 395, .on 49 49 399, .on 50 50 402, .on 51 57 405, .on 65 70 406,
    .on 97 102 406],
  [.on 46 46 294, .on 48 57 396, .on 58 58 333, .on 65 70 396, .on 93 93 512, .on 97 102 396],
  [.on 48 57 397, .on 58 58 333, .on 65 70 397, .on 93 93 512, .on 97 102 397],
  [.on 48 57 398, .on 58 58 333, .on 65 70 398, .on 93 93 512, .on 97 102 398],
  [.on 58 58 333, .on 93 93 512],
  [.on 46 46 294, .on 48 57 400, .on 58 58 333, .on 65 70 396, .on 93 93 512, .on 97 102 396],
  [.on 46 46 294, .on 48 57 401, .on 58 58 333, .on 65 70 397, .on 93 93 512, .on 97 102 397],
  [.on 46 46 294, .on 48 57 398, .on 58 58 333, .on 65 70 398, .on 93 93 512, .on 97 102 398],
  [.on 46 46 294, .on 48 52 403, .on 53 53 404, .on 54 57 403, .on 58 58 333, .on 65 70 396,
    .on 93 93 512, .on 97 102 396],
  [.on 46 46 294, .on 48 57 397, .on 58 58 333, .on 65 70 397, .on 93 93 512, .on 97 102 397],
  [.on 46 46 294, .on 48 53 401, .on 54 57 397, .on 58 58 333, .on 65 70 397, .on 93 93 512,
    .on 97 102 397],
  [.on 46 46 294, .on 48 57 403, .on 58 58 333, .on 65 70 396, .on 93 93 512, .on 97 102 396],
  [.on 48 57 396, .on 58 58 333, .on 65 70 396, .on 93 93 512, .on 97 102 396],
  [.on 46 46 294, .on 48 57 408, .on 58 58 394, .on 65 70 391, .on 93 93 512, .on 97 102 391],
  [.on 46 46 294, .on 48 57 409, .on 58 58 394, .on 65 70 392, .on 93 93 512, .on 97 102 392],
  [.on 46 46 294, .on 48 57 393, .on 58 58 394, .on 65 70 393, .on 93 93 512, .on 97 102 393],
  [.on 46 46 294, .on 48 52 411, .on 53 53 412, .on 54 57 411, .on 58 58 394, .on 65 70 391,
    .on 93 93 512, .on 97 102 391],
  [.on 46 46 294, .on 48 57 392, .on 58 58 394, .on 65 70 392, .on 93 93 512, .on 97 102 392],
  [.on 46 46 294, .on 48 53 409, .on 54 57 392, .on 58 58 394, .on 65 70 392, .on 93 93 512,
    .on 97 102 392],
  [.on 46 46 294, .on 48 57 411, .on 58 58 394, .on 65 70 391, .on 93 93 512, .on 97 102 391],
  [.on 48 57 391, .on 58 58 394, .on 65 70 391, .on 93 93 512, .on 97 102 391],
  [.on 46 46 294, .on 48 57 416, .on 58 58 389, .on 65 70 386, .on 93 93 512, .on 97 102 386],
  [.on 46 46 294, .on 48 57 417, .on 58 58 389, .on 65 70 387, .on 93 93 512, .on 97 102 387],
  [.on 46 46 294, .on 48 57 388, .on 58 58 389, .on 65 70 388, .on 93 93 512, .on 97 102 388],
  [.on 46 46 294, .on 48 52 419, .on 53 53 420, .on 54 57 419, .on 58 58 389, .on 65 70 386,
    .on 93 93 512, .on 97 102 386],
  [.on 46 46 294, .on 48 57 387, .on 58 58 389, .on 65 70 387, .on 93 93 512, .on 97 102 387],
  [.on 46 46 294, .on 48 53 417, .on 54 57 387, .on 58 58 389, .on 65 70 387, .on 93 93 512,
    .on 97 102 387],
  [.on 46 46 294, .on 48 57 419, .on 58 58 389, .on 65 70 386, .on 93 93 512, .on 97 102 386],
  [.on 48 57 386, .on 58 58 389, .on 65 70 386, .on 93 93 512, .on 97 102 386],
  [.on 46 46 294, .on 48 57 424, .on 58 58 384, .on 65 70 381, .on 93 93 512, .on 97 102 381],
  [.on 46 46 294, .on 48 57 425, .on 58 58 384, .on 65 70 382, .on 93 93 512, .on 97 102 382],
  [.on 46 46 294, .on 48 57 383, .on 58 58 384, .on 65 70 383, .on 93 93 512, .on 97 102 383],
  [.on 46 46 294, .on 48 52 427, .on 53 53 428, .on 54 57 427, .on 58 58 384, .on 65 70 381,
    .on 93 93 512, .on 97 102 381],
  [.on 46 46 294, .on 48 57 382, .on 58 58 384, .on 65 70 382, .on 93 93 512, .on 97 102 382],
  [.on 46 46 294, .on 48 53 425, .on 54 57 382, .on 58 58 384, .on 65 70 382, .on 93 93 512,
    .on 97 102 382],
  [.on 46 46 294, .on 48 57 427, .on 58 58 384, .on 65 70 381, .on 93 93 512, .on 97 102 381],
  [.on 48 57 381, .on 58 58 384, .on 65 70 381, .on 93 93 512, .on 97 102 381],
  [.on 46 46 294, .on 48 57 432, .on 58 58 379, .on 65 70 376, .on 93 93 512, .on 97 102 376],
  [.on 46 46 294, .on 48 57 433, .on 58 58 379, .on 65 70 377, .on 93 93 512, .on 97 102 377],
  [.on 46 46 294, .on 48 57 378, .on 58 58 379, .on 65 70 378, .on 93 93 512, .on 97 102 378],
  [.on 46 46 294, .on 48 52 435, .on 53 53 436, .on 54 57 435, .on 58 58 379, .on 65 70 376,
    .on 93 93 512, .on 97 102 376],
  [.on 46 46 294, .on 48 57 377, .on 58 58 379, .on 65 70 377, .on 93 93 512, .on 97 102 377],
  [.on 46 46 294, .on 48 53 433, .on 54 57 377, .on 58 58 379, .on 65 70 377, .on 93 93 512,
    .on 97 102 377],
  [.on 46 46 294, .on 48 57 435, .on 58 58 379, .on 65 70 376, .on 93 93 512, .on 97 102 376],
  [.on 48 57 376, .on 58 58 379, .on 65 70 376, .on 93 93 512, .on 97 102 376],
  [.on 46 46 294, .on 48 57 440, .on 58 58 374, .on 65 70 371, .on 93 93 512, .on 97 102 371],
  [.on 46 46 294, .on 48 57 441, .on 58 58 374, .on 65 70 372, .on 93 93 512, .on 97 102 372],
  [.on 46 46 294, .on 48 57 373, .on 58 58 374, .on 65 70 373, .on 93 93 512, .on 97 102 373],
  [.on 46 46 294, .on 48 52 443, .on 53 53 444, .on 54 57 443, .on 58 58 374, .on 65 70 371,
    .on 93 93 512, .on 97 102 371],
  [.on 46 46 294, .on 48 57 372, .on 58 58 374, .on 65 70 372, .on 93 93 512, .on 97 102 372],
  [.on 46 46 294, .on 48 53 441, .on 54 57 372, .on 58 58 374, .on 65 70 372, .on 93 93 512,
    .on 97 102 372],
  [.on 46 46 294, .on 48 57 443, .on 58 58 374, .on 65 70 371, .on 93 93 512, .on 97 102 371],
  [.on 48 57 371, .on 58 58 374, .on 65 70 371, .on 93 93 512, .on 97 102 371],
  [.on 48 57 448, .on 65 70 448, .on 97 102 448],
  [.on 46 46 449, .on 48 57 448, .on 65 70 448, .on 97 102 448],
  [.on 33 33 450, .on 36 36 450, .on 38 46 450, .on 48 59 450, .on 61 61 450, .on 65 90 450,
    .on 95 95 450, .on 97 122 450, .on 126 126 450],
  [.on 33 33 450, .on 36 36 450, .on 38 46 450, .on 48 59 450, .on 61 61 450, .on 65 90 450,
    .on 93 93 512, .on 95 95 450, .on 97 122 450, .on 126 126 450]]

/-- The final states of a relative reference, and the scheme: states 451 to 510. -/
def referenceRows : List (List Edge) := [
  [.on 33 33 452, .on 35 35 453, .on 36 36 452, .on 37 37 3, .on 38 46 452, .on 47 47 458,
    .on 48 57 452, .on 59 59 452, .on 61 61 452, .on 63 63 456, .on 64 64 452,
    .on 65 90 508 [.marku], .on 95 95 452, .on 97 122 508 [.marku], .on 126 126 452,
    .on 128 255 452],
  [.on 33 33 452, .on 35 35 453, .on 36 36 452, .on 37 37 3, .on 38 46 452, .on 47 47 455,
    .on 48 57 452, .on 59 59 452, .on 61 61 452, .on 63 63 456, .on 64 90 452, .on 95 95 452,
    .on 97 122 452, .on 126 126 452, .on 128 255 452],
  [.on 33 33 454 [.marku], .on 36 36 454 [.marku], .on 37 37 1 [.marku], .on 38 59 454 [.marku],
    .on 61 61 454 [.marku], .on 63 90 454 [.marku], .on 95 95 454 [.marku],
    .on 97 122 454 [.marku], .on 126 126 454 [.marku], .on 128 255 454 [.marku]],
  [.on 33 33 454, .on 36 36 454, .on 37 37 1, .on 38 59 454, .on 61 61 454, .on 63 90 454,
    .on 95 95 454, .on 97 122 454, .on 126 126 454, .on 128 255 454],
  [.on 33 33 455, .on 35 35 453, .on 36 36 455, .on 37 37 5, .on 38 59 455, .on 61 61 455,
    .on 63 63 456, .on 64 90 455, .on 95 95 455, .on 97 122 455, .on 126 126 455,
    .on 128 255 455],
  [.on 33 33 457 [.marku], .on 35 35 453 [.marku, .save_query], .on 36 36 457 [.marku],
    .on 37 37 7 [.marku], .on 38 59 457 [.marku], .on 61 61 457 [.marku], .on 63 90 457 [.marku],
    .on 95 95 457 [.marku], .on 97 122 457 [.marku], .on 126 126 457 [.marku],
    .on 128 255 457 [.marku]],
  [.on 33 33 457, .on 35 35 453 [.save_query], .on 36 36 457, .on 37 37 7, .on 38 59 457,
    .on 61 61 457, .on 63 90 457, .on 95 95 457, .on 97 122 457, .on 126 126 457,
    .on 128 255 457],
  [.on 33 33 455, .on 35 35 453, .on 36 36 455, .on 37 37 5, .on 38 46 455, .on 47 47 459,
    .on 48 59 455, .on 61 61 455, .on 63 63 456, .on 64 90 455, .on 95 95 455, .on 97 122 455,
    .on 126 126 455, .on 128 255 455],
  [.on 2 2 9 [.markh], .on 33 33 467 [.markh], .on 35 35 453 [.markh, .save_host],
    .on 36 36 467 [.markh], .on 37 37 31 [.markh], .on 38 46 467 [.markh],
    .on 47 47 455 [.markh, .save_host], .on 48 48 490 [.markh], .on 49 49 504 [.markh],
    .on 50 50 506 [.markh], .on 51 57 505 [.markh], .on 58 58 468 [.markh, .save_host],
    .on 59 59 467 [.markh], .on 61 61 467 [.markh], .on 63 63 456 [.markh, .save_host],
    .on 64 64 469 [.markh, .save_userinfo], .on 65 90 467 [.markh], .on 91 91 38 [.markh],
    .on 95 95 467 [.markh], .on 97 122 467 [.markh], .on 126 126 467 [.markh]],
  [.on 35 35 453 [.save_host], .on 47 47 455 [.save_host], .on 58 58 461 [.save_host],
    .on 63 63 456 [.save_host]],
  [.on 35 35 453 [.markh, .save_port], .on 47 47 455 [.markh, .save_port], .on 48 57 462 [.markh],
    .on 63 63 456 [.markh, .save_port]],
  [.on 35 35 453 [.save_port], .on 47 47 455 [.save_port], .on 48 57 462,
    .on 63 63 456 [.save_port]],
  [.on 35 35 453 [.save_host], .on 47 47 455 [.save_host], .on 48 57 464,
    .on 58 58 461 [.save_host], .on 63 63 456 [.save_host]],
  [.on 35 35 453 [.save_host], .on 47 47 455 [.save_host], .on 48 57 460,
    .on 58 58 461 [.save_host], .on 63 63 456 [.save_host]],
  [.on 35 35 453 [.save_host], .on 47 47 455 [.save_host], .on 48 52 460, .on 53 53 466,
    .on 54 57 460, .on 58 58 461 [.save_host], .on 63 63 456 [.save_host]],
  [.on 35 35 453 [.save_host], .on 47 47 455 [.save_host], .on 48 53 460,
    .on 58 58 461 [.save_host], .on 63 63 456 [.save_host]],
  [.on 33 33 467, .on 35 35 453 [.save_host], .on 36 36 467, .on 37 37 31, .on 38 46 467,
    .on 47 47 455 [.save_host], .on 48 57 467, .on 58 58 468 [.save_host], .on 59 59 467,
    .on 61 61 467, .on 63 63 456 [.save_host], .on 64 64 469 [.save_userinfo], .on 65 90 467,
    .on 95 95 467, .on 97 122 467, .on 126 126 467],
  [.on 33 33 33, .on 35 35 453 [.markh, .save_port], .on 36 36 33, .on 37 37 34, .on 38 46 33,
    .on 47 47 455 [.markh, .save_port], .on 48 57 489 [.markh], .on 58 59 33, .on 61 61 33,
    .on 63 63 456 [.markh, .save_port], .on 64 64 469 [.save_userinfo], .on 65 90 33,
    .on 95 95 33, .on 97 122 33, .on 126 126 33],
  [.on 2 2 9 [.markh], .on 33 33 470 [.markh], .on 35 35 453 [.markh, .save_host],
    .on 36 36 470 [.markh], .on 37 37 36 [.markh], .on 38 46 470 [.markh],
    .on 47 47 455 [.markh, .save_host], .on 48 48 471 [.markh], .on 49 49 485 [.markh],
    .on 50 50 487 [.markh], .on 51 57 486 [.markh], .on 58 58 461 [.markh, .save_host],
    .on 59 59 470 [.markh], .on 61 61 470 [.markh], .on 63 63 456 [.markh, .save_host],
    .on 65 90 470 [.markh], .on 91 91 38 [.markh], .on 95 95 470 [.markh],
    .on 97 122 470 [.markh], .on 126 126 470 [.markh]],
  [.on 33 33 470, .on 35 35 453 [.save_host], .on 36 36 470, .on 37 37 36, .on 38 46 470,
    .on 47 47 455 [.save_host], .on 48 57 470, .on 58 58 461 [.save_host], .on 59 59 470,
    .on 61 61 470, .on 63 63 456 [.save_host], .on 65 90 470, .on 95 95 470, .on 97 122 470,
    .on 126 126 470],
  [.on 33 33 470, .on 35 35 453 [.save_host], .on 36 36 470, .on 37 37 36, .on 38 45 470,
    .on 46 46 472, .on 47 47 455 [.save_host], .on 48 57 470, .on 58 58 461 [.save_host],
    .on 59 59 470, .on 61 61 470, .on 63 63 456 [.save_host], .on 65 90 470, .on 95 95 470,
    .on 97 122 470, .on 126 126 470],
  [.on 2 2 13, .on 33 33 470, .on 35 35 453 [.save_host], .on 36 36 470, .on 37 37 36,
    .on 38 46 470, .on 47 47 455 [.save_host], .on 48 48 473, .on 49 49 481, .on 50 50 483,
    .on 51 57 482, .on 58 58 461 [.save_host], .on 59 59 470, .on 61 61 470,
    .on 63 63 456 [.save_host], .on 65 90 470, .on 95 95 470, .on 97 122 470, .on 126 126 470],
  [.on 33 33 470, .on 35 35 453 [.save_host], .on 36 36 470, .on 37 37 36, .on 38 45 470,
    .on 46 46 474, .on 47 47 455 [.save_host], .on 48 57 470, .on 58 58 461 [.save_host],
    .on 59 59 470, .on 61 61 470, .on 63 63 456 [.save_host], .on 65 90 470, .on 95 95 470,
    .on 97 122 470, .on 126 126 470],
  [.on 2 2 17, .on 33 33 470, .on 35 35 453 [.save_host], .on 36 36 470, .on 37 37 36,
    .on 38 46 470, .on 47 47 455 [.save_host], .on 48 48 475, .on 49 49 477, .on 50 50 479,
    .on 51 57 478, .on 58 58 461 [.save_host], .on 59 59 470, .on 61 61 470,
    .on 63 63 456 [.save_host], .on 65 90 470, .on 95 95 470, .on 97 122 470, .on 126 126 470],
  [.on 33 33 470, .on 35 35 453 [.save_host], .on 36 36 470, .on 37 37 36, .on 38 45 470,
    .on 46 46 476, .on 47 47 455 [.save_host], .on 48 57 470, .on 58 58 461 [.save_host],
    .on 59 59 470, .on 61 61 470, .on 63 63 456 [.save_host], .on 65 90 470, .on 95 95 470,
    .on 97 122 470, .on 126 126 470],
  [.on 2 2 21, .on 33 33 470, .on 35 35 453 [.save_host], .on 36 36 470, .on 37 37 36,
    .on 38 46 470, .on 47 47 455 [.save_host], .on 48 57 470, .on 58 58 461 [.save_host],
    .on 59 59 470, .on 61 61 470, .on 63 63 456 [.save_host], .on 65 90 470, .on 95 95 470,
    .on 97 122 470, .on 126 126 470],
  [.on 33 33 470, .on 35 35 453 [.save_host], .on 36 36 470, .on 37 37 36, .on 38 45 470,
    .on 46 46 476, .on 47 47 455 [.save_host], .on 48 57 478, .on 58 58 461 [.save_host],
    .on 59 59 470, .on 61 61 470, .on 63 63 456 [.save_host], .on 65 90 470, .on 95 95 470,
    .on 97 122 470, .on 126 126 470],
  [.on 33 33 470, .on 35 35 453 [.save_host], .on 36 36 470, .on 37 37 36, .on 38 45 470,
    .on 46 46 476, .on 47 47 455 [.save_host], .on 48 57 475, .on 58 58 461 [.save_host],
    .on 59 59 470, .on 61 61 470, .on 63 63 456 [.save_host], .on 65 90 470, .on 95 95 470,
    .on 97 122 470, .on 126 126 470],
  [.on 33 33 470, .on 35 35 453 [.save_host], .on 36 36 470, .on 37 37 36, .on 38 45 470,
    .on 46 46 476, .on 47 47 455 [.save_host], .on 48 52 475, .on 53 53 480, .on 54 57 475,
    .on 58 58 461 [.save_host], .on 59 59 470, .on 61 61 470, .on 63 63 456 [.save_host],
    .on 65 90 470, .on 95 95 470, .on 97 122 470, .on 126 126 470],
  [.on 33 33 470, .on 35 35 453 [.save_host], .on 36 36 470, .on 37 37 36, .on 38 45 470,
    .on 46 46 476, .on 47 47 455 [.save_host], .on 48 53 475, .on 54 57 470,
    .on 58 58 461 [.save_host], .on 59 59 470, .on 61 61 470, .on 63 63 456 [.save_host],
    .on 65 90 470, .on 95 95 470, .on 97 122 470, .on 126 126 470],
  [.on 33 33 470, .on 35 35 453 [.save_host], .on 36 36 470, .on 37 37 36, .on 38 45 470,
    .on 46 46 474, .on 47 47 455 [.save_host], .on 48 57 482, .on 58 58 461 [.save_host],
    .on 59 59 470, .on 61 61 470, .on 63 63 456 [.save_host], .on 65 90 470, .on 95 95 470,
    .on 97 122 470, .on 126 126 470],
  [.on 33 33 470, .on 35 35 453 [.save_host], .on 36 36 470, .on 37 37 36, .on 38 45 470,
    .on 46 46 474, .on 47 47 455 [.save_host], .on 48 57 473, .on 58 58 461 [.save_host],
    .on 59 59 470, .on 61 61 470, .on 63 63 456 [.save_host], .on 65 90 470, .on 95 95 470,
    .on 97 122 470, .on 126 126 470],
  [.on 33 33 470, .on 35 35 453 [.save_host], .on 36 36 470, .on 37 37 36, .on 38 45 470,
    .on 46 46 474, .on 47 47 455 [.save_host], .on 48 52 473, .on 53 53 484, .on 54 57 473,
    .on 58 58 461 [.save_host], .on 59 59 470, .on 61 61 470, .on 63 63 456 [.save_host],
    .on 65 90 470, .on 95 95 470, .on 97 122 470, .on 126 126 470],
  [.on 33 33 470, .on 35 35 453 [.save_host], .on 36 36 470, .on 37 37 36, .on 38 45 470,
    .on 46 46 474, .on 47 47 455 [.save_host], .on 48 53 473, .on 54 57 470,
    .on 58 58 461 [.save_host], .on 59 59 470, .on 61 61 470, .on 63 63 456 [.save_host],
    .on 65 90 470, .on 95 95 470, .on 97 122 470, .on 126 126 470],
  [.on 33 33 470, .on 35 35 453 [.save_host], .on 36 36 470, .on 37 37 36, .on 38 45 470,
    .on 46 46 472, .on 47 47 455 [.save_host], .on 48 57 486, .on 58 58 461 [.save_host],
    .on 59 59 470, .on 61 61 470, .on 63 63 456 [.save_host], .on 65 90 470, .on 95 95 470,
    .on 97 122 470, .on 126 126 470],
  [.on 33 33 470, .on 35 35 453 [.save_host], .on 36 36 470, .on 37 37 36, .on 38 45 470,
    .on 46 46 472, .on 47 47 455 [.save_host], .on 48 57 471, .on 58 58 461 [.save_host],
    .on 59 59 470, .on 61 61 470, .on 63 63 456 [.save_host], .on 65 90 470, .on 95 95 470,
    .on 97 122 470, .on 126 126 470],
  [.on 33 33 470, .on 35 35 453 [.save_host], .on 36 36 470, .on 37 37 36, .on 38 45 470,
    .on 46 46 472, .on 47 47 455 [.save_host], .on 48 52 471, .on 53 53 488, .on 54 57 471,
    .on 58 58 461 [.save_host], .on 59 59 470, .on 61 61 470, .on 63 63 456 [.save_host],
    .on 65 90 470, .on 95 95 470, .on 97 122 470, .on 126 126 470],
  [.on 33 33 470, .on 35 35 453 [.save_host], .on 36 36 470, .on 37 37 36, .on 38 45 470,
    .on 46 46 472, .on 47 47 455 [.save_host], .on 48 53 471, .on 54 57 470,
    .on 58 58 461 [.save_host], .on 59 59 470, .on 61 61 470, .on 63 63 456 [.save_host],
    .on 65 90 470, .on 95 95 470, .on 97 122 470, .on 126 126 470],
  [.on 33 33 33, .on 35 35 453 [.save_port], .on 36 36 33, .on 37 37 34, .on 38 46 33,
    .on 47 47 455 [.save_port], .on 48 57 489, .on 58 59 33, .on 61 61 33,
    .on 63 63 456 [.save_port], .on 64 64 469 [.save_userinfo], .on 65 90 33, .on 95 95 33,
    .on 97 122 33, .on 126 126 33],
  [.on 33 33 467, .on 35 35 453 [.save_host], .on 36 36 467, .on 37 37 31, .on 38 45 467,
    .on 46 46 491, .on 47 47 455 [.save_host], .on 48 57 467, .on 58 58 468 [.save_host],
    .on 59 59 467, .on 61 61 467, .on 63 63 456 [.save_host], .on 64 64 469 [.save_userinfo],
    .on 65 90 467, .on 95 95 467, .on 97 122 467, .on 126 126 467],
  [.on 2 2 13, .on 33 33 467, .on 35 35 453 [.save_host], .on 36 36 467, .on 37 37 31,
    .on 38 46 467, .on 47 47 455 [.save_host], .on 48 48 492, .on 49 49 500, .on 50 50 502,
    .on 51 57 501, .on 58 58 468 [.save_host], .on 59 59 467, .on 61 61 467,
    .on 63 63 456 [.save_host], .on 64 64 469 [.save_userinfo], .on 65 90 467, .on 95 95 467,
    .on 97 122 467, .on 126 126 467],
  [.on 33 33 467, .on 35 35 453 [.save_host], .on 36 36 467, .on 37 37 31, .on 38 45 467,
    .on 46 46 493, .on 47 47 455 [.save_host], .on 48 57 467, .on 58 58 468 [.save_host],
    .on 59 59 467, .on 61 61 467, .on 63 63 456 [.save_host], .on 64 64 469 [.save_userinfo],
    .on 65 90 467, .on 95 95 467, .on 97 122 467, .on 126 126 467],
  [.on 2 2 17, .on 33 33 467, .on 35 35 453 [.save_host], .on 36 36 467, .on 37 37 31,
    .on 38 46 467, .on 47 47 455 [.save_host], .on 48 48 494, .on 49 49 496, .on 50 50 498,
    .on 51 57 497, .on 58 58 468 [.save_host], .on 59 59 467, .on 61 61 467,
    .on 63 63 456 [.save_host], .on 64 64 469 [.save_userinfo], .on 65 90 467, .on 95 95 467,
    .on 97 122 467, .on 126 126 467],
  [.on 33 33 467, .on 35 35 453 [.save_host], .on 36 36 467, .on 37 37 31, .on 38 45 467,
    .on 46 46 495, .on 47 47 455 [.save_host], .on 48 57 467, .on 58 58 468 [.save_host],
    .on 59 59 467, .on 61 61 467, .on 63 63 456 [.save_host], .on 64 64 469 [.save_userinfo],
    .on 65 90 467, .on 95 95 467, .on 97 122 467, .on 126 126 467],
  [.on 2 2 21, .on 33 33 467, .on 35 35 453 [.save_host], .on 36 36 467, .on 37 37 31,
    .on 38 46 467, .on 47 47 455 [.save_host], .on 48 57 467, .on 58 58 468 [.save_host],
    .on 59 59 467, .on 61 61 467, .on 63 63 456 [.save_host], .on 64 64 469 [.save_userinfo],
    .on 65 90 467, .on 95 95 467, .on 97 122 467, .on 126 126 467],
  [.on 33 33 467, .on 35 35 453 [.save_host], .on 36 36 467, .on 37 37 31, .on 38 45 467,
    .on 46 46 495, .on 47 47 455 [.save_host], .on 48 57 497, .on 58 58 468 [.save_host],
    .on 59 59 467, .on 61 61 467, .on 63 63 456 [.save_host], .on 64 64 469 [.save_userinfo],
    .on 65 90 467, .on 95 95 467, .on 97 122 467, .on 126 126 467],
  [.on 33 33 467, .on 35 35 453 [.save_host], .on 36 36 467, .on 37 37 31, .on 38 45 467,
    .on 46 46 495, .on 47 47 455 [.save_host], .on 48 57 494, .on 58 58 468 [.save_host],
    .on 59 59 467, .on 61 61 467, .on 63 63 456 [.save_host], .on 64 64 469 [.save_userinfo],
    .on 65 90 467, .on 95 95 467, .on 97 122 467, .on 126 126 467],
  [.on 33 33 467, .on 35 35 453 [.save_host], .on 36 36 467, .on 37 37 31, .on 38 45 467,
    .on 46 46 495, .on 47 47 455 [.save_host], .on 48 52 494, .on 53 53 499, .on 54 57 494,
    .on 58 58 468 [.save_host], .on 59 59 467, .on 61 61 467, .on 63 63 456 [.save_host],
    .on 64 64 469 [.save_userinfo], .on 65 90 467, .on 95 95 467, .on 97 122 467,
    .on 126 126 467],
  [.on 33 33 467, .on 35 35 453 [.save_host], .on 36 36 467, .on 37 37 31, .on 38 45 467,
    .on 46 46 495, .on 47 47 455 [.save_host], .on 48 53 494, .on 54 57 467,
    .on 58 58 468 [.save_host], .on 59 59 467, .on 61 61 467, .on 63 63 456 [.save_host],
    .on 64 64 469 [.save_userinfo], .on 65 90 467, .on 95 95 467, .on 97 122 467,
    .on 126 126 467],
  [.on 33 33 467, .on 35 35 453 [.save_host], .on 36 36 467, .on 37 37 31, .on 38 45 467,
    .on 46 46 493, .on 47 47 455 [.save_host], .on 48 57 501, .on 58 58 468 [.save_host],
    .on 59 59 467, .on 61 61 467, .on 63 63 456 [.save_host], .on 64 64 469 [.save_userinfo],
    .on 65 90 467, .on 95 95 467, .on 97 122 467, .on 126 126 467],
  [.on 33 33 467, .on 35 35 453 [.save_host], .on 36 36 467, .on 37 37 31, .on 38 45 467,
    .on 46 46 493, .on 47 47 455 [.save_host], .on 48 57 492, .on 58 58 468 [.save_host],
    .on 59 59 467, .on 61 61 467, .on 63 63 456 [.save_host], .on 64 64 469 [.save_userinfo],
    .on 65 90 467, .on 95 95 467, .on 97 122 467, .on 126 126 467],
  [.on 33 33 467, .on 35 35 453 [.save_host], .on 36 36 467, .on 37 37 31, .on 38 45 467,
    .on 46 46 493, .on 47 47 455 [.save_host], .on 48 52 492, .on 53 53 503, .on 54 57 492,
    .on 58 58 468 [.save_host], .on 59 59 467, .on 61 61 467, .on 63 63 456 [.save_host],
    .on 64 64 469 [.save_userinfo], .on 65 90 467, .on 95 95 467, .on 97 122 467,
    .on 126 126 467],
  [.on 33 33 467, .on 35 35 453 [.save_host], .on 36 36 467, .on 37 37 31, .on 38 45 467,
    .on 46 46 493, .on 47 47 455 [.save_host], .on 48 53 492, .on 54 57 467,
    .on 58 58 468 [.save_host], .on 59 59 467, .on 61 61 467, .on 63 63 456 [.save_host],
    .on 64 64 469 [.save_userinfo], .on 65 90 467, .on 95 95 467, .on 97 122 467,
    .on 126 126 467],
  [.on 33 33 467, .on 35 35 453 [.save_host], .on 36 36 467, .on 37 37 31, .on 38 45 467,
    .on 46 46 491, .on 47 47 455 [.save_host], .on 48 57 505, .on 58 58 468 [.save_host],
    .on 59 59 467, .on 61 61 467, .on 63 63 456 [.save_host], .on 64 64 469 [.save_userinfo],
    .on 65 90 467, .on 95 95 467, .on 97 122 467, .on 126 126 467],
  [.on 33 33 467, .on 35 35 453 [.save_host], .on 36 36 467, .on 37 37 31, .on 38 45 467,
    .on 46 46 491, .on 47 47 455 [.save_host], .on 48 57 490, .on 58 58 468 [.save_host],
    .on 59 59 467, .on 61 61 467, .on 63 63 456 [.save_host], .on 64 64 469 [.save_userinfo],
    .on 65 90 467, .on 95 95 467, .on 97 122 467, .on 126 126 467],
  [.on 33 33 467, .on 35 35 453 [.save_host], .on 36 36 467, .on 37 37 31, .on 38 45 467,
    .on 46 46 491, .on 47 47 455 [.save_host], .on 48 52 490, .on 53 53 507, .on 54 57 490,
    .on 58 58 468 [.save_host], .on 59 59 467, .on 61 61 467, .on 63 63 456 [.save_host],
    .on 64 64 469 [.save_userinfo], .on 65 90 467, .on 95 95 467, .on 97 122 467,
    .on 126 126 467],
  [.on 33 33 467, .on 35 35 453 [.save_host], .on 36 36 467, .on 37 37 31, .on 38 45 467,
    .on 46 46 491, .on 47 47 455 [.save_host], .on 48 53 490, .on 54 57 467,
    .on 58 58 468 [.save_host], .on 59 59 467, .on 61 61 467, .on 63 63 456 [.save_host],
    .on 64 64 469 [.save_userinfo], .on 65 90 467, .on 95 95 467, .on 97 122 467,
    .on 126 126 467],
  [.on 33 33 452, .on 35 35 453, .on 36 36 452, .on 37 37 3, .on 38 42 452, .on 43 43 508,
    .on 44 44 452, .on 45 46 508, .on 47 47 455, .on 48 57 508, .on 58 58 509 [.save_scheme],
    .on 59 59 452, .on 61 61 452, .on 63 63 456, .on 64 64 452, .on 65 90 508, .on 95 95 452,
    .on 97 122 508, .on 126 126 452, .on 128 255 452],
  [.on 33 33 455, .on 35 35 453, .on 36 36 455, .on 37 37 5, .on 38 46 455, .on 47 47 510,
    .on 48 59 455, .on 61 61 455, .on 63 63 456, .on 64 90 455, .on 95 95 455, .on 97 122 455,
    .on 126 126 455, .on 128 255 455],
  [.on 33 33 455, .on 35 35 453, .on 36 36 455, .on 37 37 5, .on 38 46 455, .on 47 47 511,
    .on 48 59 455, .on 61 61 455, .on 63 63 456, .on 64 90 455, .on 95 95 455, .on 97 122 455,
    .on 126 126 455, .on 128 255 455]]

/-- The final states of the authority and the path of a URI: states 511 to 560. -/
def authorityRows : List (List Edge) := [
  [.on 2 2 229 [.markh], .on 33 33 520 [.markh], .on 35 35 453 [.markh, .save_host, .save_path],
    .on 36 36 520 [.markh], .on 37 37 253 [.markh], .on 38 46 520 [.markh],
    .on 47 47 513 [.markh, .save_host], .on 48 48 543 [.markh], .on 49 49 557 [.markh],
    .on 50 50 559 [.markh], .on 51 57 558 [.markh], .on 58 58 521 [.markh, .save_host],
    .on 59 59 520 [.markh], .on 61 61 520 [.markh],
    .on 63 63 456 [.markh, .save_host, .save_path], .on 64 64 522 [.markh, .save_userinfo],
    .on 65 90 520 [.markh], .on 91 91 260 [.markh], .on 95 95 520 [.markh],
    .on 97 122 520 [.markh], .on 126 126 520 [.markh]],
  [.on 35 35 453 [.save_host, .markh, .save_path], .on 47 47 513 [.save_host, .markh],
    .on 58 58 514 [.save_host], .on 63 63 456 [.save_host, .markh, .save_path]],
  [.on 33 33 513, .on 35 35 453 [.save_path], .on 36 36 513, .on 37 37 243, .on 38 59 513,
    .on 61 61 513, .on 63 63 456 [.save_path], .on 64 90 513, .on 95 95 513, .on 97 122 513,
    .on 126 126 513, .on 128 255 513],
  [.on 35 35 453 [.markh, .save_port, .save_path], .on 47 47 513 [.markh, .save_port],
    .on 48 57 515 [.markh], .on 63 63 456 [.markh, .save_port, .save_path]],
  [.on 35 35 453 [.save_port, .markh, .save_path], .on 47 47 513 [.save_port, .markh],
    .on 48 57 515, .on 63 63 456 [.save_port, .markh, .save_path]],
  [.on 35 35 453 [.save_host, .markh, .save_path], .on 47 47 513 [.save_host, .markh],
    .on 48 57 517, .on 58 58 514 [.save_host], .on 63 63 456 [.save_host, .markh, .save_path]],
  [.on 35 35 453 [.save_host, .markh, .save_path], .on 47 47 513 [.save_host, .markh],
    .on 48 57 512, .on 58 58 514 [.save_host], .on 63 63 456 [.save_host, .markh, .save_path]],
  [.on 35 35 453 [.save_host, .markh, .save_path], .on 47 47 513 [.save_host, .markh],
    .on 48 52 512, .on 53 53 519, .on 54 57 512, .on 58 58 514 [.save_host],
    .on 63 63 456 [.save_host, .markh, .save_path]],
  [.on 35 35 453 [.save_host, .markh, .save_path], .on 47 47 513 [.save_host, .markh],
    .on 48 53 512, .on 58 58 514 [.save_host], .on 63 63 456 [.save_host, .markh, .save_path]],
  [.on 33 33 520, .on 35 35 453 [.save_host, .markh, .save_path], .on 36 36 520, .on 37 37 253,
    .on 38 46 520, .on 47 47 513 [.save_host, .markh], .on 48 57 520, .on 58 58 521 [.save_host],
    .on 59 59 520, .on 61 61 520, .on 63 63 456 [.save_host, .markh, .save_path],
    .on 64 64 522 [.save_userinfo], .on 65 90 520, .on 95 95 520, .on 97 122 520,
    .on 126 126 520],
  [.on 33 33 255, .on 35 35 453 [.markh, .save_port, .save_path], .on 36 36 255, .on 37 37 256,
    .on 38 46 255, .on 47 47 513 [.markh, .save_port], .on 48 57 542 [.markh], .on 58 59 255,
    .on 61 61 255, .on 63 63 456 [.markh, .save_port, .save_path], .on 64 64 522 [.save_userinfo],
    .on 65 90 255, .on 95 95 255, .on 97 122 255, .on 126 126 255],
  [.on 2 2 229 [.markh], .on 33 33 523 [.markh], .on 35 35 453 [.markh, .save_host, .save_path],
    .on 36 36 523 [.markh], .on 37 37 258 [.markh], .on 38 46 523 [.markh],
    .on 47 47 513 [.markh, .save_host], .on 48 48 524 [.markh], .on 49 49 538 [.markh],
    .on 50 50 540 [.markh], .on 51 57 539 [.markh], .on 58 58 514 [.markh, .save_host],
    .on 59 59 523 [.markh], .on 61 61 523 [.markh],
    .on 63 63 456 [.markh, .save_host, .save_path], .on 65 90 523 [.markh],
    .on 91 91 260 [.markh], .on 95 95 523 [.markh], .on 97 122 523 [.markh],
    .on 126 126 523 [.markh]],
  [.on 33 33 523, .on 35 35 453 [.save_host, .markh, .save_path], .on 36 36 523, .on 37 37 258,
    .on 38 46 523, .on 47 47 513 [.save_host, .markh], .on 48 57 523, .on 58 58 514 [.save_host],
    .on 59 59 523, .on 61 61 523, .on 63 63 456 [.save_host, .markh, .save_path], .on 65 90 523,
    .on 95 95 523, .on 97 122 523, .on 126 126 523],
  [.on 33 33 523, .on 35 35 453 [.save_host, .markh, .save_path], .on 36 36 523, .on 37 37 258,
    .on 38 45 523, .on 46 46 525, .on 47 47 513 [.save_host, .markh], .on 48 57 523,
    .on 58 58 514 [.save_host], .on 59 59 523, .on 61 61 523,
    .on 63 63 456 [.save_host, .markh, .save_path], .on 65 90 523, .on 95 95 523, .on 97 122 523,
    .on 126 126 523],
  [.on 2 2 233, .on 33 33 523, .on 35 35 453 [.save_host, .markh, .save_path], .on 36 36 523,
    .on 37 37 258, .on 38 46 523, .on 47 47 513 [.save_host, .markh], .on 48 48 526,
    .on 49 49 534, .on 50 50 536, .on 51 57 535, .on 58 58 514 [.save_host], .on 59 59 523,
    .on 61 61 523, .on 63 63 456 [.save_host, .markh, .save_path], .on 65 90 523, .on 95 95 523,
    .on 97 122 523, .on 126 126 523],
  [.on 33 33 523, .on 35 35 453 [.save_host, .markh, .save_path], .on 36 36 523, .on 37 37 258,
    .on 38 45 523, .on 46 46 527, .on 47 47 513 [.save_host, .markh], .on 48 57 523,
    .on 58 58 514 [.save_host], .on 59 59 523, .on 61 61 523,
    .on 63 63 456 [.save_host, .markh, .save_path], .on 65 90 523, .on 95 95 523, .on 97 122 523,
    .on 126 126 523],
  [.on 2 2 237, .on 33 33 523, .on 35 35 453 [.save_host, .markh, .save_path], .on 36 36 523,
    .on 37 37 258, .on 38 46 523, .on 47 47 513 [.save_host, .markh], .on 48 48 528,
    .on 49 49 530, .on 50 50 532, .on 51 57 531, .on 58 58 514 [.save_host], .on 59 59 523,
    .on 61 61 523, .on 63 63 456 [.save_host, .markh, .save_path], .on 65 90 523, .on 95 95 523,
    .on 97 122 523, .on 126 126 523],
  [.on 33 33 523, .on 35 35 453 [.save_host, .markh, .save_path], .on 36 36 523, .on 37 37 258,
    .on 38 45 523, .on 46 46 529, .on 47 47 513 [.save_host, .markh], .on 48 57 523,
    .on 58 58 514 [.save_host], .on 59 59 523, .on 61 61 523,
    .on 63 63 456 [.save_host, .markh, .save_path], .on 65 90 523, .on 95 95 523, .on 97 122 523,
    .on 126 126 523],
  [.on 2 2 241, .on 33 33 523, .on 35 35 453 [.save_host, .markh, .save_path], .on 36 36 523,
    .on 37 37 258, .on 38 46 523, .on 47 47 513 [.save_host, .markh], .on 48 57 523,
    .on 58 58 514 [.save_host], .on 59 59 523, .on 61 61 523,
    .on 63 63 456 [.save_host, .markh, .save_path], .on 65 90 523, .on 95 95 523, .on 97 122 523,
    .on 126 126 523],
  [.on 33 33 523, .on 35 35 453 [.save_host, .markh, .save_path], .on 36 36 523, .on 37 37 258,
    .on 38 45 523, .on 46 46 529, .on 47 47 513 [.save_host, .markh], .on 48 57 531,
    .on 58 58 514 [.save_host], .on 59 59 523, .on 61 61 523,
    .on 63 63 456 [.save_host, .markh, .save_path], .on 65 90 523, .on 95 95 523, .on 97 122 523,
    .on 126 126 523],
  [.on 33 33 523, .on 35 35 453 [.save_host, .markh, .save_path], .on 36 36 523, .on 37 37 258,
    .on 38 45 523, .on 46 46 529, .on 47 47 513 [.save_host, .markh], .on 48 57 528,
    .on 58 58 514 [.save_host], .on 59 59 523, .on 61 61 523,
    .on 63 63 456 [.save_host, .markh, .save_path], .on 65 90 523, .on 95 95 523, .on 97 122 523,
    .on 126 126 523],
  [.on 33 33 523, .on 35 35 453 [.save_host, .markh, .save_path], .on 36 36 523, .on 37 37 258,
    .on 38 45 523, .on 46 46 529, .on 47 47 513 [.save_host, .markh], .on 48 52 528,
    .on 53 53 533, .on 54 57 528, .on 58 58 514 [.save_host], .on 59 59 523, .on 61 61 523,
    .on 63 63 456 [.save_host, .markh, .save_path], .on 65 90 523, .on 95 95 523, .on 97 122 523,
    .on 126 126 523],
  [.on 33 33 523, .on 35 35 453 [.save_host, .markh, .save_path], .on 36 36 523, .on 37 37 258,
    .on 38 45 523, .on 46 46 529, .on 47 47 513 [.save_host, .markh], .on 48 53 528,
    .on 54 57 523, .on 58 58 514 [.save_host], .on 59 59 523, .on 61 61 523,
    .on 63 63 456 [.save_host, .markh, .save_path], .on 65 90 523, .on 95 95 523, .on 97 122 523,
    .on 126 126 523],
  [.on 33 33 523, .on 35 35 453 [.save_host, .markh, .save_path], .on 36 36 523, .on 37 37 258,
    .on 38 45 523, .on 46 46 527, .on 47 47 513 [.save_host, .markh], .on 48 57 535,
    .on 58 58 514 [.save_host], .on 59 59 523, .on 61 61 523,
    .on 63 63 456 [.save_host, .markh, .save_path], .on 65 90 523, .on 95 95 523, .on 97 122 523,
    .on 126 126 523],
  [.on 33 33 523, .on 35 35 453 [.save_host, .markh, .save_path], .on 36 36 523, .on 37 37 258,
    .on 38 45 523, .on 46 46 527, .on 47 47 513 [.save_host, .markh], .on 48 57 526,
    .on 58 58 514 [.save_host], .on 59 59 523, .on 61 61 523,
    .on 63 63 456 [.save_host, .markh, .save_path], .on 65 90 523, .on 95 95 523, .on 97 122 523,
    .on 126 126 523],
  [.on 33 33 523, .on 35 35 453 [.save_host, .markh, .save_path], .on 36 36 523, .on 37 37 258,
    .on 38 45 523, .on 46 46 527, .on 47 47 513 [.save_host, .markh], .on 48 52 526,
    .on 53 53 537, .on 54 57 526, .on 58 58 514 [.save_host], .on 59 59 523, .on 61 61 523,
    .on 63 63 456 [.save_host, .markh, .save_path], .on 65 90 523, .on 95 95 523, .on 97 122 523,
    .on 126 126 523],
  [.on 33 33 523, .on 35 35 453 [.save_host, .markh, .save_path], .on 36 36 523, .on 37 37 258,
    .on 38 45 523, .on 46 46 527, .on 47 47 513 [.save_host, .markh], .on 48 53 526,
    .on 54 57 523, .on 58 58 514 [.save_host], .on 59 59 523, .on 61 61 523,
    .on 63 63 456 [.save_host, .markh, .save_path], .on 65 90 523, .on 95 95 523, .on 97 122 523,
    .on 126 126 523],
  [.on 33 33 523, .on 35 35 453 [.save_host, .markh, .save_path], .on 36 36 523, .on 37 37 258,
    .on 38 45 523, .on 46 46 525, .on 47 47 513 [.save_host, .markh], .on 48 57 539,
    .on 58 58 514 [.save_host], .on 59 59 523, .on 61 61 523,
    .on 63 63 456 [.save_host, .markh, .save_path], .on 65 90 523, .on 95 95 523, .on 97 122 523,
    .on 126 126 523],
  [.on 33 33 523, .on 35 35 453 [.save_host, .markh, .save_path], .on 36 36 523, .on 37 37 258,
    .on 38 45 523, .on 46 46 525, .on 47 47 513 [.save_host, .markh], .on 48 57 524,
    .on 58 58 514 [.save_host], .on 59 59 523, .on 61 61 523,
    .on 63 63 456 [.save_host, .markh, .save_path], .on 65 90 523, .on 95 95 523, .on 97 122 523,
    .on 126 126 523],
  [.on 33 33 523, .on 35 35 453 [.save_host, .markh, .save_path], .on 36 36 523, .on 37 37 258,
    .on 38 45 523, .on 46 46 525, .on 47 47 513 [.save_host, .markh], .on 48 52 524,
    .on 53 53 541, .on 54 57 524, .on 58 58 514 [.save_host], .on 59 59 523, .on 61 61 523,
    .on 63 63 456 [.save_host, .markh, .save_path], .on 65 90 523, .on 95 95 523, .on 97 122 523,
    .on 126 126 523],
  [.on 33 33 523, .on 35 35 453 [.save_host, .markh, .save_path], .on 36 36 523, .on 37 37 258,
    .on 38 45 523, .on 46 46 525, .on 47 47 513 [.save_host, .markh], .on 48 53 524,
    .on 54 57 523, .on 58 58 514 [.save_host], .on 59 59 523, .on 61 61 523,
    .on 63 63 456 [.save_host, .markh, .save_path], .on 65 90 523, .on 95 95 523, .on 97 122 523,
    .on 126 126 523],
  [.on 33 33 255, .on 35 35 453 [.save_port, .markh, .save_path], .on 36 36 255, .on 37 37 256,
    .on 38 46 255, .on 47 47 513 [.save_port, .markh], .on 48 57 542, .on 58 59 255,
    .on 61 61 255, .on 63 63 456 [.save_port, .markh, .save_path], .on 64 64 522 [.save_userinfo],
    .on 65 90 255, .on 95 95 255, .on 97 122 255, .on 126 126 255],
  [.on 33 33 520, .on 35 35 453 [.save_host, .markh, .save_path], .on 36 36 520, .on 37 37 253,
    .on 38 45 520, .on 46 46 544, .on 47 47 513 [.save_host, .markh], .on 48 57 520,
    .on 58 58 521 [.save_host], .on 59 59 520, .on 61 61 520,
    .on 63 63 456 [.save_host, .markh, .save_path], .on 64 64 522 [.save_userinfo], .on 65 90 520,
    .on 95 95 520, .on 97 122 520, .on 126 126 520],
  [.on 2 2 233, .on 33 33 520, .on 35 35 453 [.save_host, .markh, .save_path], .on 36 36 520,
    .on 37 37 253, .on 38 46 520, .on 47 47 513 [.save_host, .markh], .on 48 48 545,
    .on 49 49 553, .on 50 50 555, .on 51 57 554, .on 58 58 521 [.save_host], .on 59 59 520,
    .on 61 61 520, .on 63 63 456 [.save_host, .markh, .save_path], .on 64 64 522 [.save_userinfo],
    .on 65 90 520, .on 95 95 520, .on 97 122 520, .on 126 126 520],
  [.on 33 33 520, .on 35 35 453 [.save_host, .markh, .save_path], .on 36 36 520, .on 37 37 253,
    .on 38 45 520, .on 46 46 546, .on 47 47 513 [.save_host, .markh], .on 48 57 520,
    .on 58 58 521 [.save_host], .on 59 59 520, .on 61 61 520,
    .on 63 63 456 [.save_host, .markh, .save_path], .on 64 64 522 [.save_userinfo], .on 65 90 520,
    .on 95 95 520, .on 97 122 520, .on 126 126 520],
  [.on 2 2 237, .on 33 33 520, .on 35 35 453 [.save_host, .markh, .save_path], .on 36 36 520,
    .on 37 37 253, .on 38 46 520, .on 47 47 513 [.save_host, .markh], .on 48 48 547,
    .on 49 49 549, .on 50 50 551, .on 51 57 550, .on 58 58 521 [.save_host], .on 59 59 520,
    .on 61 61 520, .on 63 63 456 [.save_host, .markh, .save_path], .on 64 64 522 [.save_userinfo],
    .on 65 90 520, .on 95 95 520, .on 97 122 520, .on 126 126 520],
  [.on 33 33 520, .on 35 35 453 [.save_host, .markh, .save_path], .on 36 36 520, .on 37 37 253,
    .on 38 45 520, .on 46 46 548, .on 47 47 513 [.save_host, .markh], .on 48 57 520,
    .on 58 58 521 [.save_host], .on 59 59 520, .on 61 61 520,
    .on 63 63 456 [.save_host, .markh, .save_path], .on 64 64 522 [.save_userinfo], .on 65 90 520,
    .on 95 95 520, .on 97 122 520, .on 126 126 520],
  [.on 2 2 241, .on 33 33 520, .on 35 35 453 [.save_host, .markh, .save_path], .on 36 36 520,
    .on 37 37 253, .on 38 46 520, .on 47 47 513 [.save_host, .markh], .on 48 57 520,
    .on 58 58 521 [.save_host], .on 59 59 520, .on 61 61 520,
    .on 63 63 456 [.save_host, .markh, .save_path], .on 64 64 522 [.save_userinfo], .on 65 90 520,
    .on 95 95 520, .on 97 122 520, .on 126 126 520],
  [.on 33 33 520, .on 35 35 453 [.save_host, .markh, .save_path], .on 36 36 520, .on 37 37 253,
    .on 38 45 520, .on 46 46 548, .on 47 47 513 [.save_host, .markh], .on 48 57 550,
    .on 58 58 521 [.save_host], .on 59 59 520, .on 61 61 520,
    .on 63 63 456 [.save_host, .markh, .save_path], .on 64 64 522 [.save_userinfo], .on 65 90 520,
    .on 95 95 520, .on 97 122 520, .on 126 126 520],
  [.on 33 33 520, .on 35 35 453 [.save_host, .markh, .save_path], .on 36 36 520, .on 37 37 253,
    .on 38 45 520, .on 46 46 548, .on 47 47 513 [.save_host, .markh], .on 48 57 547,
    .on 58 58 521 [.save_host], .on 59 59 520, .on 61 61 520,
    .on 63 63 456 [.save_host, .markh, .save_path], .on 64 64 522 [.save_userinfo], .on 65 90 520,
    .on 95 95 520, .on 97 122 520, .on 126 126 520],
  [.on 33 33 520, .on 35 35 453 [.save_host, .markh, .save_path], .on 36 36 520, .on 37 37 253,
    .on 38 45 520, .on 46 46 548, .on 47 47 513 [.save_host, .markh], .on 48 52 547,
    .on 53 53 552, .on 54 57 547, .on 58 58 521 [.save_host], .on 59 59 520, .on 61 61 520,
    .on 63 63 456 [.save_host, .markh, .save_path], .on 64 64 522 [.save_userinfo], .on 65 90 520,
    .on 95 95 520, .on 97 122 520, .on 126 126 520],
  [.on 33 33 520, .on 35 35 453 [.save_host, .markh, .save_path], .on 36 36 520, .on 37 37 253,
    .on 38 45 520, .on 46 46 548, .on 47 47 513 [.save_host, .markh], .on 48 53 547,
    .on 54 57 520, .on 58 58 521 [.save_host], .on 59 59 520, .on 61 61 520,
    .on 63 63 456 [.save_host, .markh, .save_path], .on 64 64 522 [.save_userinfo], .on 65 90 520,
    .on 95 95 520, .on 97 122 520, .on 126 126 520],
  [.on 33 33 520, .on 35 35 453 [.save_host, .markh, .save_path], .on 36 36 520, .on 37 37 253,
    .on 38 45 520, .on 46 46 546, .on 47 47 513 [.save_host, .markh], .on 48 57 554,
    .on 58 58 521 [.save_host], .on 59 59 520, .on 61 61 520,
    .on 63 63 456 [.save_host, .markh, .save_path], .on 64 64 522 [.save_userinfo], .on 65 90 520,
    .on 95 95 520, .on 97 122 520, .on 126 126 520],
  [.on 33 33 520, .on 35 35 453 [.save_host, .markh, .save_path], .on 36 36 520, .on 37 37 253,
    .on 38 45 520, .on 46 46 546, .on 47 47 513 [.save_host, .markh], .on 48 57 545,
    .on 58 58 521 [.save_host], .on 59 59 520, .on 61 61 520,
    .on 63 63 456 [.save_host, .markh, .save_path], .on 64 64 522 [.save_userinfo], .on 65 90 520,
    .on 95 95 520, .on 97 122 520, .on 126 126 520],
  [.on 33 33 520, .on 35 35 453 [.save_host, .markh, .save_path], .on 36 36 520, .on 37 37 253,
    .on 38 45 520, .on 46 46 546, .on 47 47 513 [.save_host, .markh], .on 48 52 545,
    .on 53 53 556, .on 54 57 545, .on 58 58 521 [.save_host], .on 59 59 520, .on 61 61 520,
    .on 63 63 456 [.save_host, .markh, .save_path], .on 64 64 522 [.save_userinfo], .on 65 90 520,
    .on 95 95 520, .on 97 122 520, .on 126 126 520],
  [.on 33 33 520, .on 35 35 453 [.save_host, .markh, .save_path], .on 36 36 520, .on 37 37 253,
    .on 38 45 520, .on 46 46 546, .on 47 47 513 [.save_host, .markh], .on 48 53 545,
    .on 54 57 520, .on 58 58 521 [.save_host], .on 59 59 520, .on 61 61 520,
    .on 63 63 456 [.save_host, .markh, .save_path], .on 64 64 522 [.save_userinfo], .on 65 90 520,
    .on 95 95 520, .on 97 122 520, .on 126 126 520],
  [.on 33 33 520, .on 35 35 453 [.save_host, .markh, .save_path], .on 36 36 520, .on 37 37 253,
    .on 38 45 520, .on 46 46 544, .on 47 47 513 [.save_host, .markh], .on 48 57 558,
    .on 58 58 521 [.save_host], .on 59 59 520, .on 61 61 520,
    .on 63 63 456 [.save_host, .markh, .save_path], .on 64 64 522 [.save_userinfo], .on 65 90 520,
    .on 95 95 520, .on 97 122 520, .on 126 126 520],
  [.on 33 33 520, .on 35 35 453 [.save_host, .markh, .save_path], .on 36 36 520, .on 37 37 253,
    .on 38 45 520, .on 46 46 544, .on 47 47 513 [.save_host, .markh], .on 48 57 543,
    .on 58 58 521 [.save_host], .on 59 59 520, .on 61 61 520,
    .on 63 63 456 [.save_host, .markh, .save_path], .on 64 64 522 [.save_userinfo], .on 65 90 520,
    .on 95 95 520, .on 97 122 520, .on 126 126 520],
  [.on 33 33 520, .on 35 35 453 [.save_host, .markh, .save_path], .on 36 36 520, .on 37 37 253,
    .on 38 45 520, .on 46 46 544, .on 47 47 513 [.save_host, .markh], .on 48 52 543,
    .on 53 53 560, .on 54 57 543, .on 58 58 521 [.save_host], .on 59 59 520, .on 61 61 520,
    .on 63 63 456 [.save_host, .markh, .save_path], .on 64 64 522 [.save_userinfo], .on 65 90 520,
    .on 95 95 520, .on 97 122 520, .on 126 126 520],
  [.on 33 33 520, .on 35 35 453 [.save_host, .markh, .save_path], .on 36 36 520, .on 37 37 253,
    .on 38 45 520, .on 46 46 544, .on 47 47 513 [.save_host, .markh], .on 48 53 543,
    .on 54 57 520, .on 58 58 521 [.save_host], .on 59 59 520, .on 61 61 520,
    .on 63 63 456 [.save_host, .markh, .save_path], .on 64 64 522 [.save_userinfo], .on 65 90 520,
    .on 95 95 520, .on 97 122 520, .on 126 126 520]]

/-- The edges of each state. -/
def table : List (List Edge) :=
  percentRows ++ relativeRows ++ hostRows ++ referenceRows ++ authorityRows

/-- The actions at the end of the string. -/
def eofActions (cs : ℕ) : List Action :=
  if cs = 462 ∨ cs = 489 then [.save_port]
  else if cs = 460 ∨ 463 ≤ cs ∧ cs ≤ 467 ∨ 470 ≤ cs ∧ cs ≤ 488 ∨ 490 ≤ cs ∧ cs ≤ 507 then
    [.save_host]
  else if cs = 513 then [.save_path]
  else if cs = 457 then [.save_query]
  else if cs = 454 then [.save_fragment]
  else if cs = 456 then [.marku, .save_query]
  else if cs = 453 then [.marku, .save_fragment]
  else if cs = 461 ∨ cs = 468 then [.markh, .save_port]
  else if cs = 459 ∨ cs = 469 then [.markh, .save_host]
  else if cs = 514 ∨ cs = 521 then [.markh, .save_port, .save_path]
  else if cs = 511 ∨ cs = 522 then [.markh, .save_host, .save_path]
  else if cs = 515 ∨ cs = 542 then [.save_port, .markh, .save_path]
  else if cs = 512 ∨ 516 ≤ cs ∧ cs ≤ 520 ∨ 523 ≤ cs ∧ cs ≤ 541 ∨ 543 ≤ cs ∧ cs ≤ 560 then
    [.save_host, .markh, .save_path]
  else []

end Uri

end Sylar
