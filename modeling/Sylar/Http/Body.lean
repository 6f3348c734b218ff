import Sylar.Foundation.Paged
import Sylar.Http.Session
import Sylar.Stream.FixSize

/-!
# The body of a message

`recvRequest` and `recvResponse` make a string of the announced length, copy into it what the
buffer has behind the header, as far as it fits, and let `readFixSize` store the rest behind that.
Every store is checked here against the end of the string.

## Main definitions

* `storeAt`, `storeReads`: stores that stay in a string
* `assembleBody`: the two calls behind the header, on the reads that follow

## Main results

* `storeReads_first`: reads that do not fail are stored one behind the other
* `body_exact`: the body is the first bytes behind the header, and no more are read
-/

namespace Sylar

open Foundation Streams

namespace Http

/-- A store into a string, or nothing when it goes past its end. -/
def storeAt (body : List UInt8) (offset : ℕ) (d : List UInt8) : Option (List UInt8) :=
  if offset + d.length ≤ body.length then some (splice body offset d) else none

/-- The stores of reads at `&body[len]`: each call stores what it reads where it is asked to. -/
def storeReads (len : ℕ) : List Call → List (List UInt8) → List UInt8 → Option (List UInt8)
  | call :: calls, d :: reads, body =>
    (storeAt body (len + call.offset) d).bind (storeReads len calls reads)
  | _, _, body => some body

/-- What becomes of a body. -/
inductive BodyResult
  /-- A store goes past the end of the string. -/
  | overrun
  /-- `readFixSize` asks for more. -/
  | reading
  /-- The connection is closed. -/
  | closed
  /-- The body, and the number of reads made for it. -/
  | received (body : List UInt8) (calls : ℕ)
  deriving DecidableEq, Repr

/-- The assembly of a body of the announced length, from the data behind the header and the reads
that follow. -/
def assembleBody (length : ℤ) (data : List UInt8) (reads : List (List UInt8)) : BodyResult :=
  if 0 < length then
    let n := if data.length ≤ length then data.length else length.toNat
    match storeAt (List.replicate (toSize length) 0) 0 (data.take n) with
    | none => .overrun
    | some body =>
      let len := Streams.toInt n
      let length := length - data.length
      if 0 < length then
        let r := readFixSize (toSize length) (reads.map fun d => (d.length : ℤ))
        match storeReads len.toNat r.1 reads body with
        | none => .overrun
        | some body =>
          match r.2 with
          | none => .reading
          | some rt => if rt ≤ 0 then .closed else .received body r.1.length
      else .received body 0
  else .received [] 0

/-- The body in `HttpSession::recvRequest`. -/
def recvRequestBody : ℤ → List UInt8 → List (List UInt8) → BodyResult := assembleBody

/-- The body in `HttpConnection::recvResponse`, when it is not chunked. -/
def recvResponseBody : ℤ → List UInt8 → List (List UInt8) → BodyResult := assembleBody

variable {body data : List UInt8} {len n length : ℕ} {reads : ℕ → List UInt8}

/-! ## Stores -/

theorem storeReads_append {calls calls' : List Call} {ds ds' : List (List UInt8)}
    (h : calls.length = ds.length) : storeReads len (calls ++ calls') (ds ++ ds') body =
      (storeReads len calls ds body).bind (storeReads len calls' ds') := by
  induction calls generalizing ds body with
  | nil =>
    obtain rfl := List.length_eq_zero_iff.mp h.symm
    cases calls' <;> rfl
  | cons call calls ih =>
    cases ds with
    | nil => cases h
    | cons d ds =>
      rw [List.cons_append, List.cons_append, storeReads, storeReads, Option.bind_assoc]
      congr 1
      funext body
      exact ih (Nat.succ.inj h)

/-- The first reads. -/
def firstReads (n : ℕ) (reads : ℕ → List UInt8) : List (List UInt8) := (List.range n).map reads

/-- The results of reads. -/
def lengths (reads : ℕ → List UInt8) (i : ℕ) : ℤ := (reads i).length

theorem firstReads_succ (n : ℕ) (reads : ℕ → List UInt8) :
    firstReads (n + 1) reads = firstReads n reads ++ [reads n] := by
  rw [firstReads, List.range_succ, List.map_append, List.map_singleton]
  rfl

theorem map_firstReads (n : ℕ) (reads : ℕ → List UInt8) :
    (firstReads n reads).map (fun d => (d.length : ℤ)) = first n (lengths reads) := by
  rw [firstReads, List.map_map]
  rfl

theorem total_lengths (n : ℕ) (reads : ℕ → List UInt8) :
    total (lengths reads) n = (firstReads n reads).flatten.length := by
  induction n with
  | zero => rfl
  | succ n ih =>
    rw [total_succ, ih, firstReads_succ, List.flatten_append, List.length_append,
      List.flatten_singleton, Nat.cast_add]
    rfl

/-- **Reads that do not fail** are stored one behind the other. -/
theorem storeReads_first (hfit : len + (firstReads n reads).flatten.length ≤ body.length) :
    storeReads len ((List.range n).map (nextCall 0 length (lengths reads))) (firstReads n reads)
      body = some (splice body len (firstReads n reads).flatten) := by
  induction n with
  | zero =>
    rw [firstReads, List.range_zero, List.map_nil, List.map_nil, List.flatten_nil, splice_nil]
    rfl
  | succ n ih =>
    rw [firstReads_succ, List.flatten_append, List.flatten_singleton, List.length_append] at hfit
    rw [firstReads_succ, List.range_succ, List.map_append, List.map_singleton,
      storeReads_append (by rw [List.length_map, firstReads, List.length_map]), ih (by omega),
      Option.bind_some, List.flatten_append, List.flatten_singleton]
    have hoffset : (nextCall 0 length (lengths reads) n).offset =
        (firstReads n reads).flatten.length := by
      simp only [nextCall, total_lengths]
      omega
    have hlen : (splice body len (firstReads n reads).flatten).length = _ :=
      length_splice (by omega)
    rw [storeReads, hoffset, storeAt, if_pos (by omega), Option.bind_some, splice_splice (by omega)]
    rfl

/-! ## The body -/

/-- Every read that is made succeeds: it gets something, and no more than is asked for. -/
def Successful (length : ℕ) (reads : ℕ → List UInt8) : Prop :=
  ∀ i, (∀ j ≤ i, 0 < leftAt length (lengths reads) j) →
    reads i ≠ [] ∧ (reads i).length ≤ leftAt length (lengths reads) i

/-- Successful reads ask for less and less. -/
theorem Successful.leftAt_le (h : Successful length reads) (hlength : length < 2 ^ 64) (i : ℕ)
    (hi : ∀ j ≤ i, 0 < leftAt length (lengths reads) j) :
    leftAt length (lengths reads) i ≤ length := by
  induction i with
  | zero => exact le_rfl
  | succ i ih =>
    have hle := ih fun j hj => hi j (Nat.le_succ_of_le hj)
    obtain ⟨-, hread⟩ := h i fun j hj => hi j (Nat.le_succ_of_le hj)
    have hsize : toSize (lengths reads i) = (reads i).length := by
      unfold lengths
      rw [toSize_of_lt (by omega) (by omega), Int.toNat_natCast]
    rw [leftAt, hsize, toSize_of_lt (by omega) (by omega)]
    omega

theorem Successful.answers (h : Successful length reads) (hlength : length < 2 ^ 31) :
    Answers length (lengths reads) := by
  intro i hi
  obtain ⟨hne, hread⟩ := h i hi
  have hle := h.leftAt_le (by omega) i hi
  have hpos := List.length_pos_iff.mpr hne
  unfold lengths at *
  omega

theorem Successful.clean (h : Successful length reads) (hlength : length < 2 ^ 31) :
    Clean length (lengths reads) := by
  refine ⟨hlength, fun i hi hlt => ?_⟩
  have hmade : ∀ j ≤ i, 0 < leftAt length (lengths reads) j := by
    intro j hj
    have hmono := total_mono hj hi
    rw [leftAt_eq (by omega) (fun k hk => hi k (by omega)) (by omega)]
    omega
  have hpos := List.length_pos_iff.mpr (h i hmade).1
  exact Int.natCast_pos.mpr hpos

theorem storeAt_new {d : List UInt8} (h : d.length ≤ length) :
    storeAt (List.replicate length 0) 0 d = some (splice (List.replicate length 0) 0 d) := by
  rw [storeAt, List.length_replicate, if_pos (by omega)]

/-- What is stored from the start of a string on, to its end. -/
theorem splice_whole {xs d : List UInt8} (h : d.length = xs.length) : splice xs 0 d = d := by
  rw [splice, List.take_zero, List.nil_append, List.drop_eq_nil_of_le (by omega), List.append_nil]

/-- **The assembly of a body**: with the reads that it makes it is the first bytes behind the
header. -/
theorem assembleBody_eq (hpos : 0 < length) (hint : length < 2 ^ 31)
    (h : Successful (length - data.length) reads) :
    ∃ n, assembleBody length data (firstReads n reads) =
        .received ((data ++ (firstReads n reads).flatten).take length) n ∧
      (firstReads n reads).flatten.length = length - data.length := by
  have hsize : toSize length = length := by
    rw [toSize_of_lt (by omega) (by omega), Int.toNat_natCast]
  -- what came with the header is a part of the body, or all of it
  rcases Nat.lt_or_ge data.length length with hmissing | henough
  · obtain ⟨n, hall, htotal⟩ :=
      (h.clean (by omega)).reaches (h.answers (by omega)) (by omega)
    have hread : (firstReads n reads).flatten.length = length - data.length := by
      rw [total_lengths] at htotal
      omega
    refine ⟨n, ?_, hread⟩
    have hleft : (length : ℤ) - data.length = (length - data.length : ℕ) := by omega
    have hleftSize : toSize ((length - data.length : ℕ) : ℤ) = length - data.length := by
      rw [toSize_of_lt (by omega) (by omega), Int.toNat_natCast]
    have hloop := fixLoop_first (advances_offset (by omega)) (by omega)
      (fun j hj => (hall j hj).1) htotal.le
    rw [if_neg (by omega)] at hloop
    have hlen : (Streams.toInt data.length).toNat = data.length := by
      rw [toInt_eq_iff.mpr (by omega), Int.toNat_natCast]
    have hstring : (splice (List.replicate length (0 : UInt8)) 0 data).length = _ :=
      length_splice (by rw [List.length_replicate]; omega)
    rw [List.length_replicate] at hstring
    have hstored := @storeReads_first (splice (List.replicate length 0) 0 data) data.length n
      (length - data.length) reads (by omega)
    have hwhole : splice (splice (List.replicate length 0) 0 data) data.length
        (firstReads n reads).flatten = data ++ (firstReads n reads).flatten := by
      have htwice : splice (splice (List.replicate length (0 : UInt8)) 0 data) (0 + data.length)
          (firstReads n reads).flatten = _ :=
        splice_splice (by rw [List.length_replicate]; omega)
      rw [Nat.zero_add] at htwice
      rw [htwice, splice_whole]
      rw [List.length_append, List.length_replicate]
      omega
    have hreturn : ¬ Streams.toInt (length - data.length) ≤ 0 := by
      rw [toInt_eq_iff.mpr (by omega)]
      omega
    simp only [assembleBody, if_pos (Int.natCast_pos.mpr hpos),
      if_pos (Int.ofNat_le.mpr hmissing.le), hsize, List.take_length, storeAt_new hmissing.le,
      hleft, if_pos (Int.natCast_pos.mpr (Nat.sub_pos_of_lt hmissing)), hleftSize, map_firstReads,
      readFixSize, hloop, hlen, hstored, hwhole, if_neg hreturn, List.length_map,
      List.length_range]
    rw [List.take_of_length_le]
    rw [List.length_append]
    omega
  · refine ⟨0, ?_, by rw [Nat.sub_eq_zero_of_le henough]; rfl⟩
    have hn : (if (data.length : ℤ) ≤ length then data.length else (length : ℤ).toNat) =
        length := by
      split_ifs <;> omega
    have hdata : (data.take length).length = length := by
      rw [List.length_take]
      omega
    have hnone : ¬ (0 : ℤ) < length - data.length := by omega
    simp only [assembleBody, if_pos (Int.natCast_pos.mpr hpos), hn, hsize, storeAt_new hdata.le,
      if_neg hnone]
    rw [splice_whole (by rw [hdata, List.length_replicate]), firstReads, List.range_zero,
      List.map_nil, List.flatten_nil, List.append_nil]

/-- **The body is exact**: for every announced length, whatever the buffer has behind the header and
however the rest arrives, both members store nothing past the end of the string, and make of it the
first bytes behind the header; the bytes they read for it are those the buffer does not have. It is
the body that the model of a call has. -/
theorem body_exact (hpos : 0 < length) (hint : length < 2 ^ 31)
    (h : Successful (length - data.length) reads) :
    ∃ n, recvRequestBody length data (firstReads n reads) =
        .received ((data ++ (firstReads n reads).flatten).take length) n ∧
      recvResponseBody length data (firstReads n reads) =
        .received ((data ++ (firstReads n reads).flatten).take length) n ∧
      (firstReads n reads).flatten.length = length - data.length ∧
      ∃ socket, recvBody length data (firstReads n reads) =
        some ((data ++ (firstReads n reads).flatten).take length, socket) ∧
          socket.flatten = [] := by
  obtain ⟨n, hbody, hread⟩ := assembleBody_eq hpos hint h
  refine ⟨n, hbody, hbody, hread, skip (length - data.length) (firstReads n reads), ?_, ?_⟩
  · have hlen : ((data ++ (firstReads n reads).flatten).take length).length = length := by
      rw [List.length_take, List.length_append]
      omega
    have hcall := @recvBody_eq (firstReads n reads)
      ((data ++ (firstReads n reads).flatten).take length)
      ((data ++ (firstReads n reads).flatten).drop length) data.length
    rw [hlen, List.take_append_drop, List.take_left, List.drop_left, List.length_append] at hcall
    rw [hcall (Nat.le_add_right _ _) rfl, if_neg]
    rintro ⟨hmissing, hzero⟩
    rw [toInt_of_lt (by omega)] at hzero
    omega
  · rw [flatten_skip, List.drop_eq_nil_of_le hread.le]

/-- A body of five bytes, of which two came with the header and three come in two reads. -/
theorem body_exact_five : ∃ n,
    recvRequestBody 5 [1, 2] (firstReads n fun i => if i = 0 then [3, 4] else [5]) =
        .received (([1, 2] ++ (firstReads n fun i => if i = 0 then [3, 4] else [5]).flatten).take 5)
          n ∧
      recvResponseBody 5 [1, 2] (firstReads n fun i => if i = 0 then [3, 4] else [5]) =
        .received (([1, 2] ++ (firstReads n fun i => if i = 0 then [3, 4] else [5]).flatten).take 5)
          n ∧
      (firstReads n fun i => if i = 0 then [3, 4] else [5]).flatten.length = 5 - 2 ∧
      ∃ socket, recvBody 5 [1, 2] (firstReads n fun i => if i = 0 then [3, 4] else [5]) =
        some (([1, 2] ++ (firstReads n fun i => if i = 0 then [3, 4] else [5]).flatten).take 5,
          socket) ∧ socket.flatten = [] := by
  apply @body_exact [1, 2] 5 _ (by decide) (by omega)
  intro i hi
  have hmade : i < 2 := by
    by_contra hge
    exact absurd (hi 2 (by omega)) (by decide)
  match i, hmade with
  | 0, _ => exact ⟨List.cons_ne_nil _ _, by decide⟩
  | 1, _ => exact ⟨List.cons_ne_nil _ _, by decide⟩

end Http

end Sylar
