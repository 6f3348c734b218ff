import Mathlib.Data.List.Basic

/-!
# The table of the HTTP response parser

The machine of `httpclient_parser_execute`: what each jump of the state machine in
`httpclient_parser.rl.cc` looks at, where it leads, and the actions on its way. State 0 is the error
state and has no edges, the machine starts in state 1 and its final states are 120 to 123, of which
only 120 counts as finished. The type `char` is signed: the bytes from 128 are its negative values,
in the same order.

## Main definitions

* `ClientAction`, `ClientEdge`: the actions of the machine, and its edges
* `clientTable`: the edges of each state
-/

namespace Sylar

namespace Http

/-- The actions of the machine. -/
inductive ClientAction
  | mark
  | start_field
  | write_field
  | start_value
  | write_content_len
  | write_connection_close
  | write_value
  | reason_phrase
  | status_code
  | http_version
  | chunk_size
  | trans_chunked
  | done
  deriving DecidableEq, Repr

/-- An edge for the bytes from `lo` to `hi`. -/
structure ClientEdge where
  lo : ℕ
  hi : ℕ
  target : ℕ
  actions : List ClientAction

def ClientEdge.on (lo hi target : ℕ) (actions : List ClientAction := []) : ClientEdge where
  lo := lo
  hi := hi
  target := target
  actions := actions

/-- The header of a chunk, and the status line: states 0 to 19. -/
def statusRows : List (List ClientEdge) := [
  [],
  [.on 48 57 2 [.mark], .on 65 70 2 [.mark], .on 72 72 8 [.mark], .on 97 102 2 [.mark]],
  [.on 10 10 120 [.chunk_size, .done], .on 13 13 3 [.chunk_size], .on 48 57 2,
    .on 59 59 4 [.chunk_size], .on 65 70 2, .on 97 102 2],
  [.on 10 10 120 [.done]],
  [.on 33 33 5 [.start_field], .on 35 39 5 [.start_field], .on 42 43 5 [.start_field],
    .on 45 46 5 [.start_field], .on 48 57 5 [.start_field], .on 65 90 5 [.start_field],
    .on 94 122 5 [.start_field], .on 124 124 5 [.start_field], .on 126 126 5 [.start_field]],
  [.on 10 10 120 [.write_field, .start_value, .write_value, .done],
    .on 13 13 3 [.write_field, .start_value, .write_value], .on 33 33 5, .on 35 39 5, .on 42 43 5,
    .on 45 46 5, .on 48 57 5, .on 59 59 4 [.write_field, .start_value, .write_value],
    .on 61 61 6 [.write_field, .start_value], .on 65 90 5, .on 94 122 5, .on 124 124 5,
    .on 126 126 5],
  [.on 33 33 7 [.start_value], .on 35 39 7 [.start_value], .on 42 43 7 [.start_value],
    .on 45 46 7 [.start_value], .on 48 57 7 [.start_value], .on 65 90 7 [.start_value],
    .on 94 122 7 [.start_value], .on 124 124 7 [.start_value], .on 126 126 7 [.start_value]],
  [.on 10 10 120 [.write_value, .done], .on 13 13 3 [.write_value], .on 33 33 7, .on 35 39 7,
    .on 42 43 7, .on 45 46 7, .on 48 57 7, .on 59 59 4 [.write_value], .on 65 90 7, .on 94 122 7,
    .on 124 124 7, .on 126 126 7],
  [.on 84 84 9],
  [.on 84 84 10],
  [.on 80 80 11],
  [.on 47 47 12],
  [.on 48 57 13],
  [.on 46 46 14, .on 48 57 13],
  [.on 48 57 15],
  [.on 32 32 16 [.http_version], .on 48 57 15],
  [.on 48 57 17 [.mark]],
  [.on 32 32 18 [.status_code], .on 48 57 17],
  [.on 0 9 19 [.mark], .on 11 255 19 [.mark]],
  [.on 0 9 19, .on 10 10 20 [.reason_phrase], .on 11 12 19, .on 13 13 24 [.reason_phrase],
    .on 14 255 19]]

/-- The headers of a response: states 20 to 62. -/
def fieldRows : List (List ClientEdge) := [
  [.on 10 10 120 [.done], .on 13 13 3, .on 33 33 21 [.start_field], .on 35 39 21 [.start_field],
    .on 42 43 21 [.start_field], .on 45 46 21 [.start_field], .on 48 57 21 [.start_field],
    .on 65 66 21 [.start_field], .on 67 67 25 [.start_field], .on 68 83 21 [.start_field],
    .on 84 84 44 [.start_field], .on 85 90 21 [.start_field], .on 94 98 21 [.start_field],
    .on 99 99 25 [.start_field], .on 100 115 21 [.start_field], .on 116 116 44 [.start_field],
    .on 117 122 21 [.start_field], .on 124 124 21 [.start_field], .on 126 126 21 [.start_field]],
  [.on 33 33 21, .on 35 39 21, .on 42 43 21, .on 45 46 21, .on 48 57 21,
    .on 58 58 22 [.write_field], .on 65 90 21, .on 94 122 21, .on 124 124 21, .on 126 126 21],
  [.on 0 8 23 [.start_value], .on 9 9 22 [.start_value],
    .on 10 10 20 [.start_value, .write_value], .on 11 12 22 [.start_value],
    .on 13 13 24 [.start_value, .write_value], .on 14 31 23 [.start_value],
    .on 32 32 22 [.start_value], .on 33 255 23 [.start_value]],
  [.on 0 9 23, .on 10 10 20 [.write_value], .on 11 12 23, .on 13 13 24 [.write_value],
    .on 14 255 23],
  [.on 10 10 20],
  [.on 33 33 21, .on 35 39 21, .on 42 43 21, .on 45 46 21, .on 48 57 21,
    .on 58 58 22 [.write_field], .on 65 78 21, .on 79 79 26, .on 80 90 21, .on 94 110 21,
    .on 111 111 26, .on 112 122 21, .on 124 124 21, .on 126 126 21],
  [.on 33 33 21, .on 35 39 21, .on 42 43 21, .on 45 46 21, .on 48 57 21,
    .on 58 58 22 [.write_field], .on 65 77 21, .on 78 78 27, .on 79 90 21, .on 94 109 21,
    .on 110 110 27, .on 111 122 21, .on 124 124 21, .on 126 126 21],
  [.on 33 33 21, .on 35 39 21, .on 42 43 21, .on 45 46 21, .on 48 57 21,
    .on 58 58 22 [.write_field], .on 65 77 21, .on 78 78 28, .on 79 83 21, .on 84 84 101,
    .on 85 90 21, .on 94 109 21, .on 110 110 28, .on 111 115 21, .on 116 116 101, .on 117 122 21,
    .on 124 124 21, .on 126 126 21],
  [.on 33 33 21, .on 35 39 21, .on 42 43 21, .on 45 46 21, .on 48 57 21,
    .on 58 58 22 [.write_field], .on 65 68 21, .on 69 69 29, .on 70 90 21, .on 94 100 21,
    .on 101 101 29, .on 102 122 21, .on 124 124 21, .on 126 126 21],
  [.on 33 33 21, .on 35 39 21, .on 42 43 21, .on 45 46 21, .on 48 57 21,
    .on 58 58 22 [.write_field], .on 65 66 21, .on 67 67 30, .on 68 90 21, .on 94 98 21,
    .on 99 99 30, .on 100 122 21, .on 124 124 21, .on 126 126 21],
  [.on 33 33 21, .on 35 39 21, .on 42 43 21, .on 45 46 21, .on 48 57 21,
    .on 58 58 22 [.write_field], .on 65 83 21, .on 84 84 31, .on 85 90 21, .on 94 115 21,
    .on 116 116 31, .on 117 122 21, .on 124 124 21, .on 126 126 21],
  [.on 33 33 21, .on 35 39 21, .on 42 43 21, .on 45 46 21, .on 48 57 21,
    .on 58 58 22 [.write_field], .on 65 72 21, .on 73 73 32, .on 74 90 21, .on 94 104 21,
    .on 105 105 32, .on 106 122 21, .on 124 124 21, .on 126 126 21],
  [.on 33 33 21, .on 35 39 21, .on 42 43 21, .on 45 46 21, .on 48 57 21,
    .on 58 58 22 [.write_field], .on 65 78 21, .on 79 79 33, .on 80 90 21, .on 94 110 21,
    .on 111 111 33, .on 112 122 21, .on 124 124 21, .on 126 126 21],
  [.on 33 33 21, .on 35 39 21, .on 42 43 21, .on 45 46 21, .on 48 57 21,
    .on 58 58 22 [.write_field], .on 65 77 21, .on 78 78 34, .on 79 90 21, .on 94 109 21,
    .on 110 110 34, .on 111 122 21, .on 124 124 21, .on 126 126 21],
  [.on 33 33 21, .on 35 39 21, .on 42 43 21, .on 45 46 21, .on 48 57 21,
    .on 58 58 35 [.write_field], .on 65 90 21, .on 94 122 21, .on 124 124 21, .on 126 126 21],
  [.on 0 8 23 [.start_value], .on 9 9 35 [.start_value],
    .on 10 10 36 [.start_value, .write_value], .on 11 12 35 [.start_value],
    .on 13 13 95 [.start_value, .write_value], .on 14 31 23 [.start_value],
    .on 32 32 35 [.start_value], .on 33 66 23 [.start_value], .on 67 67 96 [.start_value],
    .on 68 98 23 [.start_value], .on 99 99 96 [.start_value], .on 100 255 23 [.start_value]],
  [.on 9 9 37, .on 10 10 122 [.done], .on 11 12 37, .on 13 13 89, .on 32 32 37,
    .on 33 33 21 [.start_field], .on 35 39 21 [.start_field], .on 42 43 21 [.start_field],
    .on 45 46 21 [.start_field], .on 48 57 21 [.start_field], .on 65 66 21 [.start_field],
    .on 67 67 90 [.start_field], .on 68 83 21 [.start_field], .on 84 84 44 [.start_field],
    .on 85 90 21 [.start_field], .on 94 98 21 [.start_field], .on 99 99 90 [.start_field],
    .on 100 115 21 [.start_field], .on 116 116 44 [.start_field], .on 117 122 21 [.start_field],
    .on 124 124 21 [.start_field], .on 126 126 21 [.start_field]],
  [.on 9 13 37, .on 32 32 37, .on 67 67 38, .on 99 99 38],
  [.on 76 76 39, .on 108 108 39],
  [.on 79 79 40, .on 111 111 40],
  [.on 83 83 41, .on 115 115 41],
  [.on 69 69 42, .on 101 101 42],
  [.on 10 10 43, .on 13 13 88],
  [.on 10 10 120 [.write_connection_close, .done], .on 13 13 3 [.write_connection_close],
    .on 33 33 21 [.write_connection_close, .start_field],
    .on 35 39 21 [.write_connection_close, .start_field],
    .on 42 43 21 [.write_connection_close, .start_field],
    .on 45 46 21 [.write_connection_close, .start_field],
    .on 48 57 21 [.write_connection_close, .start_field],
    .on 65 66 21 [.write_connection_close, .start_field],
    .on 67 67 25 [.write_connection_close, .start_field],
    .on 68 83 21 [.write_connection_close, .start_field],
    .on 84 84 44 [.write_connection_close, .start_field],
    .on 85 90 21 [.write_connection_close, .start_field],
    .on 94 98 21 [.write_connection_close, .start_field],
    .on 99 99 25 [.write_connection_close, .start_field],
    .on 100 115 21 [.write_connection_close, .start_field],
    .on 116 116 44 [.write_connection_close, .start_field],
    .on 117 122 21 [.write_connection_close, .start_field],
    .on 124 124 21 [.write_connection_close, .start_field],
    .on 126 126 21 [.write_connection_close, .start_field]],
  [.on 33 33 21, .on 35 39 21, .on 42 43 21, .on 45 46 21, .on 48 57 21,
    .on 58 58 22 [.write_field], .on 65 81 21, .on 82 82 45, .on 83 90 21, .on 94 113 21,
    .on 114 114 45, .on 115 122 21, .on 124 124 21, .on 126 126 21],
  [.on 33 33 21, .on 35 39 21, .on 42 43 21, .on 45 46 21, .on 48 57 21,
    .on 58 58 22 [.write_field], .on 65 65 46, .on 66 90 21, .on 94 96 21, .on 97 97 46,
    .on 98 122 21, .on 124 124 21, .on 126 126 21],
  [.on 33 33 21, .on 35 39 21, .on 42 43 21, .on 45 46 21, .on 48 57 21,
    .on 58 58 22 [.write_field], .on 65 77 21, .on 78 78 47, .on 79 90 21, .on 94 109 21,
    .on 110 110 47, .on 111 122 21, .on 124 124 21, .on 126 126 21],
  [.on 33 33 21, .on 35 39 21, .on 42 43 21, .on 45 46 21, .on 48 57 21,
    .on 58 58 22 [.write_field], .on 65 82 21, .on 83 83 48, .on 84 90 21, .on 94 114 21,
    .on 115 115 48, .on 116 122 21, .on 124 124 21, .on 126 126 21],
  [.on 33 33 21, .on 35 39 21, .on 42 43 21, .on 45 46 21, .on 48 57 21,
    .on 58 58 22 [.write_field], .on 65 69 21, .on 70 70 49, .on 71 90 21, .on 94 101 21,
    .on 102 102 49, .on 103 122 21, .on 124 124 21, .on 126 126 21],
  [.on 33 33 21, .on 35 39 21, .on 42 43 21, .on 45 46 21, .on 48 57 21,
    .on 58 58 22 [.write_field], .on 65 68 21, .on 69 69 50, .on 70 90 21, .on 94 100 21,
    .on 101 101 50, .on 102 122 21, .on 124 124 21, .on 126 126 21],
  [.on 33 33 21, .on 35 39 21, .on 42 43 21, .on 45 46 21, .on 48 57 21,
    .on 58 58 22 [.write_field], .on 65 81 21, .on 82 82 51, .on 83 90 21, .on 94 113 21,
    .on 114 114 51, .on 115 122 21, .on 124 124 21, .on 126 126 21],
  [.on 33 33 21, .on 35 39 21, .on 42 43 21, .on 45 45 52, .on 46 46 21, .on 48 57 21,
    .on 58 58 22 [.write_field], .on 65 90 21, .on 94 122 21, .on 124 124 21, .on 126 126 21],
  [.on 33 33 21, .on 35 39 21, .on 42 43 21, .on 45 46 21, .on 48 57 21,
    .on 58 58 22 [.write_field], .on 65 68 21, .on 69 69 53, .on 70 90 21, .on 94 100 21,
    .on 101 101 53, .on 102 122 21, .on 124 124 21, .on 126 126 21],
  [.on 33 33 21, .on 35 39 21, .on 42 43 21, .on 45 46 21, .on 48 57 21,
    .on 58 58 22 [.write_field], .on 65 77 21, .on 78 78 54, .on 79 90 21, .on 94 109 21,
    .on 110 110 54, .on 111 122 21, .on 124 124 21, .on 126 126 21],
  [.on 33 33 21, .on 35 39 21, .on 42 43 21, .on 45 46 21, .on 48 57 21,
    .on 58 58 22 [.write_field], .on 65 66 21, .on 67 67 55, .on 68 90 21, .on 94 98 21,
    .on 99 99 55, .on 100 122 21, .on 124 124 21, .on 126 126 21],
  [.on 33 33 21, .on 35 39 21, .on 42 43 21, .on 45 46 21, .on 48 57 21,
    .on 58 58 22 [.write_field], .on 65 78 21, .on 79 79 56, .on 80 90 21, .on 94 110 21,
    .on 111 111 56, .on 112 122 21, .on 124 124 21, .on 126 126 21],
  [.on 33 33 21, .on 35 39 21, .on 42 43 21, .on 45 46 21, .on 48 57 21,
    .on 58 58 22 [.write_field], .on 65 67 21, .on 68 68 57, .on 69 90 21, .on 94 99 21,
    .on 100 100 57, .on 101 122 21, .on 124 124 21, .on 126 126 21],
  [.on 33 33 21, .on 35 39 21, .on 42 43 21, .on 45 46 21, .on 48 57 21,
    .on 58 58 22 [.write_field], .on 65 72 21, .on 73 73 58, .on 74 90 21, .on 94 104 21,
    .on 105 105 58, .on 106 122 21, .on 124 124 21, .on 126 126 21],
  [.on 33 33 21, .on 35 39 21, .on 42 43 21, .on 45 46 21, .on 48 57 21,
    .on 58 58 22 [.write_field], .on 65 77 21, .on 78 78 59, .on 79 90 21, .on 94 109 21,
    .on 110 110 59, .on 111 122 21, .on 124 124 21, .on 126 126 21],
  [.on 33 33 21, .on 35 39 21, .on 42 43 21, .on 45 46 21, .on 48 57 21,
    .on 58 58 22 [.write_field], .on 65 70 21, .on 71 71 60, .on 72 90 21, .on 94 102 21,
    .on 103 103 60, .on 104 122 21, .on 124 124 21, .on 126 126 21],
  [.on 33 33 21, .on 35 39 21, .on 42 43 21, .on 45 46 21, .on 48 57 21,
    .on 58 58 61 [.write_field], .on 65 90 21, .on 94 122 21, .on 124 124 21, .on 126 126 21],
  [.on 0 8 23 [.start_value], .on 9 9 61 [.start_value],
    .on 10 10 62 [.start_value, .write_value], .on 11 12 61 [.start_value],
    .on 13 13 80 [.start_value, .write_value], .on 14 31 23 [.start_value],
    .on 32 32 61 [.start_value], .on 33 66 23 [.start_value], .on 67 67 81 [.start_value],
    .on 68 98 23 [.start_value], .on 99 99 81 [.start_value], .on 100 255 23 [.start_value]],
  [.on 9 9 63, .on 10 10 121 [.done], .on 11 12 63, .on 13 13 72, .on 32 32 63,
    .on 33 33 21 [.start_field], .on 35 39 21 [.start_field], .on 42 43 21 [.start_field],
    .on 45 46 21 [.start_field], .on 48 57 21 [.start_field], .on 65 66 21 [.start_field],
    .on 67 67 73 [.start_value, .start_field], .on 68 83 21 [.start_field],
    .on 84 84 44 [.start_field], .on 85 90 21 [.start_field], .on 94 98 21 [.start_field],
    .on 99 99 73 [.start_value, .start_field], .on 100 115 21 [.start_field],
    .on 116 116 44 [.start_field], .on 117 122 21 [.start_field], .on 124 124 21 [.start_field],
    .on 126 126 21 [.start_field]]]

/-- The headers of a response, further on: states 63 to 119. -/
def valueRows : List (List ClientEdge) := [
  [.on 9 13 63, .on 32 32 63, .on 67 67 64 [.start_value], .on 99 99 64 [.start_value]],
  [.on 72 72 65, .on 104 104 65],
  [.on 85 85 66, .on 117 117 66],
  [.on 78 78 67, .on 110 110 67],
  [.on 75 75 68, .on 107 107 68],
  [.on 69 69 69, .on 101 101 69],
  [.on 68 68 70, .on 100 100 70],
  [.on 10 10 20 [.write_value, .trans_chunked], .on 13 13 71 [.write_value]],
  [.on 10 10 20 [.trans_chunked]],
  [.on 9 9 63, .on 10 10 121 [.done], .on 11 13 63, .on 32 32 63, .on 67 67 64 [.start_value],
    .on 99 99 64 [.start_value]],
  [.on 33 33 21, .on 35 39 21, .on 42 43 21, .on 45 46 21, .on 48 57 21,
    .on 58 58 22 [.write_field], .on 65 71 21, .on 72 72 74, .on 73 78 21, .on 79 79 26,
    .on 80 90 21, .on 94 103 21, .on 104 104 74, .on 105 110 21, .on 111 111 26, .on 112 122 21,
    .on 124 124 21, .on 126 126 21],
  [.on 33 33 21, .on 35 39 21, .on 42 43 21, .on 45 46 21, .on 48 57 21,
    .on 58 58 22 [.write_field], .on 65 84 21, .on 85 85 75, .on 86 90 21, .on 94 116 21,
    .on 117 117 75, .on 118 122 21, .on 124 124 21, .on 126 126 21],
  [.on 33 33 21, .on 35 39 21, .on 42 43 21, .on 45 46 21, .on 48 57 21,
    .on 58 58 22 [.write_field], .on 65 77 21, .on 78 78 76, .on 79 90 21, .on 94 109 21,
    .on 110 110 76, .on 111 122 21, .on 124 124 21, .on 126 126 21],
  [.on 33 33 21, .on 35 39 21, .on 42 43 21, .on 45 46 21, .on 48 57 21,
    .on 58 58 22 [.write_field], .on 65 74 21, .on 75 75 77, .on 76 90 21, .on 94 106 21,
    .on 107 107 77, .on 108 122 21, .on 124 124 21, .on 126 126 21],
  [.on 33 33 21, .on 35 39 21, .on 42 43 21, .on 45 46 21, .on 48 57 21,
    .on 58 58 22 [.write_field], .on 65 68 21, .on 69 69 78, .on 70 90 21, .on 94 100 21,
    .on 101 101 78, .on 102 122 21, .on 124 124 21, .on 126 126 21],
  [.on 33 33 21, .on 35 39 21, .on 42 43 21, .on 45 46 21, .on 48 57 21,
    .on 58 58 22 [.write_field], .on 65 67 21, .on 68 68 79, .on 69 90 21, .on 94 99 21,
    .on 100 100 79, .on 101 122 21, .on 124 124 21, .on 126 126 21],
  [.on 10 10 20 [.write_value, .trans_chunked], .on 13 13 71 [.write_value], .on 33 33 21,
    .on 35 39 21, .on 42 43 21, .on 45 46 21, .on 48 57 21, .on 58 58 22 [.write_field],
    .on 65 90 21, .on 94 122 21, .on 124 124 21, .on 126 126 21],
  [.on 9 9 63, .on 10 10 62, .on 11 13 63, .on 32 32 63, .on 67 67 64 [.start_value],
    .on 99 99 64 [.start_value]],
  [.on 0 9 23, .on 10 10 20 [.write_value], .on 11 12 23, .on 13 13 24 [.write_value],
    .on 14 71 23, .on 72 72 82, .on 73 103 23, .on 104 104 82, .on 105 255 23],
  [.on 0 9 23, .on 10 10 20 [.write_value], .on 11 12 23, .on 13 13 24 [.write_value],
    .on 14 84 23, .on 85 85 83, .on 86 116 23, .on 117 117 83, .on 118 255 23],
  [.on 0 9 23, .on 10 10 20 [.write_value], .on 11 12 23, .on 13 13 24 [.write_value],
    .on 14 77 23, .on 78 78 84, .on 79 109 23, .on 110 110 84, .on 111 255 23],
  [.on 0 9 23, .on 10 10 20 [.write_value], .on 11 12 23, .on 13 13 24 [.write_value],
    .on 14 74 23, .on 75 75 85, .on 76 106 23, .on 107 107 85, .on 108 255 23],
  [.on 0 9 23, .on 10 10 20 [.write_value], .on 11 12 23, .on 13 13 24 [.write_value],
    .on 14 68 23, .on 69 69 86, .on 70 100 23, .on 101 101 86, .on 102 255 23],
  [.on 0 9 23, .on 10 10 20 [.write_value], .on 11 12 23, .on 13 13 24 [.write_value],
    .on 14 67 23, .on 68 68 87, .on 69 99 23, .on 100 100 87, .on 101 255 23],
  [.on 0 9 23, .on 10 10 20 [.write_value, .trans_chunked], .on 11 12 23,
    .on 13 13 71 [.write_value], .on 14 255 23],
  [.on 10 10 43],
  [.on 9 9 37, .on 10 10 122 [.done], .on 11 13 37, .on 32 32 37, .on 67 67 38, .on 99 99 38],
  [.on 33 33 21, .on 35 39 21, .on 42 43 21, .on 45 46 21, .on 48 57 21,
    .on 58 58 22 [.write_field], .on 65 75 21, .on 76 76 91, .on 77 78 21, .on 79 79 26,
    .on 80 90 21, .on 94 107 21, .on 108 108 91, .on 109 110 21, .on 111 111 26, .on 112 122 21,
    .on 124 124 21, .on 126 126 21],
  [.on 33 33 21, .on 35 39 21, .on 42 43 21, .on 45 46 21, .on 48 57 21,
    .on 58 58 22 [.write_field], .on 65 78 21, .on 79 79 92, .on 80 90 21, .on 94 110 21,
    .on 111 111 92, .on 112 122 21, .on 124 124 21, .on 126 126 21],
  [.on 33 33 21, .on 35 39 21, .on 42 43 21, .on 45 46 21, .on 48 57 21,
    .on 58 58 22 [.write_field], .on 65 82 21, .on 83 83 93, .on 84 90 21, .on 94 114 21,
    .on 115 115 93, .on 116 122 21, .on 124 124 21, .on 126 126 21],
  [.on 33 33 21, .on 35 39 21, .on 42 43 21, .on 45 46 21, .on 48 57 21,
    .on 58 58 22 [.write_field], .on 65 68 21, .on 69 69 94, .on 70 90 21, .on 94 100 21,
    .on 101 101 94, .on 102 122 21, .on 124 124 21, .on 126 126 21],
  [.on 10 10 43, .on 13 13 88, .on 33 33 21, .on 35 39 21, .on 42 43 21, .on 45 46 21,
    .on 48 57 21, .on 58 58 22 [.write_field], .on 65 90 21, .on 94 122 21, .on 124 124 21,
    .on 126 126 21],
  [.on 9 9 37, .on 10 10 36, .on 11 13 37, .on 32 32 37, .on 67 67 38, .on 99 99 38],
  [.on 0 9 23, .on 10 10 20 [.write_value], .on 11 12 23, .on 13 13 24 [.write_value],
    .on 14 75 23, .on 76 76 97, .on 77 107 23, .on 108 108 97, .on 109 255 23],
  [.on 0 9 23, .on 10 10 20 [.write_value], .on 11 12 23, .on 13 13 24 [.write_value],
    .on 14 78 23, .on 79 79 98, .on 80 110 23, .on 111 111 98, .on 112 255 23],
  [.on 0 9 23, .on 10 10 20 [.write_value], .on 11 12 23, .on 13 13 24 [.write_value],
    .on 14 82 23, .on 83 83 99, .on 84 114 23, .on 115 115 99, .on 116 255 23],
  [.on 0 9 23, .on 10 10 20 [.write_value], .on 11 12 23, .on 13 13 24 [.write_value],
    .on 14 68 23, .on 69 69 100, .on 70 100 23, .on 101 101 100, .on 102 255 23],
  [.on 0 9 23, .on 10 10 43 [.write_value], .on 11 12 23, .on 13 13 88 [.write_value],
    .on 14 255 23],
  [.on 33 33 21, .on 35 39 21, .on 42 43 21, .on 45 46 21, .on 48 57 21,
    .on 58 58 22 [.write_field], .on 65 68 21, .on 69 69 102, .on 70 90 21, .on 94 100 21,
    .on 101 101 102, .on 102 122 21, .on 124 124 21, .on 126 126 21],
  [.on 33 33 21, .on 35 39 21, .on 42 43 21, .on 45 46 21, .on 48 57 21,
    .on 58 58 22 [.write_field], .on 65 77 21, .on 78 78 103, .on 79 90 21, .on 94 109 21,
    .on 110 110 103, .on 111 122 21, .on 124 124 21, .on 126 126 21],
  [.on 33 33 21, .on 35 39 21, .on 42 43 21, .on 45 46 21, .on 48 57 21,
    .on 58 58 22 [.write_field], .on 65 83 21, .on 84 84 104, .on 85 90 21, .on 94 115 21,
    .on 116 116 104, .on 117 122 21, .on 124 124 21, .on 126 126 21],
  [.on 33 33 21, .on 35 39 21, .on 42 43 21, .on 45 45 105, .on 46 46 21, .on 48 57 21,
    .on 58 58 22 [.write_field], .on 65 90 21, .on 94 122 21, .on 124 124 21, .on 126 126 21],
  [.on 33 33 21, .on 35 39 21, .on 42 43 21, .on 45 46 21, .on 48 57 21,
    .on 58 58 22 [.write_field], .on 65 75 21, .on 76 76 106, .on 77 90 21, .on 94 107 21,
    .on 108 108 106, .on 109 122 21, .on 124 124 21, .on 126 126 21],
  [.on 33 33 21, .on 35 39 21, .on 42 43 21, .on 45 46 21, .on 48 57 21,
    .on 58 58 22 [.write_field], .on 65 68 21, .on 69 69 107, .on 70 90 21, .on 94 100 21,
    .on 101 101 107, .on 102 122 21, .on 124 124 21, .on 126 126 21],
  [.on 33 33 21, .on 35 39 21, .on 42 43 21, .on 45 46 21, .on 48 57 21,
    .on 58 58 22 [.write_field], .on 65 77 21, .on 78 78 108, .on 79 90 21, .on 94 109 21,
    .on 110 110 108, .on 111 122 21, .on 124 124 21, .on 126 126 21],
  [.on 33 33 21, .on 35 39 21, .on 42 43 21, .on 45 46 21, .on 48 57 21,
    .on 58 58 22 [.write_field], .on 65 70 21, .on 71 71 109, .on 72 90 21, .on 94 102 21,
    .on 103 103 109, .on 104 122 21, .on 124 124 21, .on 126 126 21],
  [.on 33 33 21, .on 35 39 21, .on 42 43 21, .on 45 46 21, .on 48 57 21,
    .on 58 58 22 [.write_field], .on 65 83 21, .on 84 84 110, .on 85 90 21, .on 94 115 21,
    .on 116 116 110, .on 117 122 21, .on 124 124 21, .on 126 126 21],
  [.on 33 33 21, .on 35 39 21, .on 42 43 21, .on 45 46 21, .on 48 57 21,
    .on 58 58 22 [.write_field], .on 65 71 21, .on 72 72 111, .on 73 90 21, .on 94 103 21,
    .on 104 104 111, .on 105 122 21, .on 124 124 21, .on 126 126 21],
  [.on 33 33 21, .on 35 39 21, .on 42 43 21, .on 45 46 21, .on 48 57 21,
    .on 58 58 112 [.write_field], .on 65 90 21, .on 94 122 21, .on 124 124 21, .on 126 126 21],
  [.on 0 8 23 [.start_value], .on 9 9 112 [.start_value],
    .on 10 10 113 [.start_value, .write_value], .on 11 12 112 [.start_value],
    .on 13 13 118 [.start_value, .write_value], .on 14 31 23 [.start_value],
    .on 32 32 112 [.start_value], .on 33 47 23 [.start_value], .on 48 57 119 [.start_value],
    .on 58 255 23 [.start_value]],
  [.on 9 9 114, .on 10 10 123 [.done], .on 11 12 114, .on 13 13 116, .on 32 32 114,
    .on 33 33 21 [.start_field], .on 35 39 21 [.start_field], .on 42 43 21 [.start_field],
    .on 45 46 21 [.start_field], .on 48 57 117 [.start_value, .start_field],
    .on 65 66 21 [.start_field], .on 67 67 25 [.start_field], .on 68 83 21 [.start_field],
    .on 84 84 44 [.start_field], .on 85 90 21 [.start_field], .on 94 98 21 [.start_field],
    .on 99 99 25 [.start_field], .on 100 115 21 [.start_field], .on 116 116 44 [.start_field],
    .on 117 122 21 [.start_field], .on 124 124 21 [.start_field], .on 126 126 21 [.start_field]],
  [.on 9 13 114, .on 32 32 114, .on 48 57 115 [.start_value]],
  [.on 10 10 20 [.write_content_len, .write_value],
    .on 13 13 24 [.write_content_len, .write_value], .on 48 57 115],
  [.on 9 9 114, .on 10 10 123 [.done], .on 11 13 114, .on 32 32 114,
    .on 48 57 115 [.start_value]],
  [.on 10 10 20 [.write_content_len, .write_value],
    .on 13 13 24 [.write_content_len, .write_value], .on 33 33 21, .on 35 39 21, .on 42 43 21,
    .on 45 46 21, .on 48 57 117, .on 58 58 22 [.write_field], .on 65 90 21, .on 94 122 21,
    .on 124 124 21, .on 126 126 21],
  [.on 9 9 114, .on 10 10 113, .on 11 13 114, .on 32 32 114, .on 48 57 115 [.start_value]],
  [.on 0 9 23, .on 10 10 20 [.write_content_len, .write_value], .on 11 12 23,
    .on 13 13 24 [.write_content_len, .write_value], .on 14 47 23, .on 48 57 119, .on 58 255 23]]

/-- The final states. -/
def doneRows : List (List ClientEdge) := [
  [],
  [.on 9 13 63, .on 32 32 63, .on 67 67 64 [.start_value], .on 99 99 64 [.start_value]],
  [.on 9 13 37, .on 32 32 37, .on 67 67 38, .on 99 99 38],
  [.on 9 13 114, .on 32 32 114, .on 48 57 115 [.start_value]]]

/-- The edges of each state. -/
def clientTable : List (List ClientEdge) := statusRows ++ fieldRows ++ valueRows ++ doneRows

end Http

end Sylar
