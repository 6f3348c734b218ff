import Sylar.Http.Chunk
import Sylar.Http.Limits

/-!
# Responses in chunks

`recvResponse` reads the head of a response, and then chunk after chunk. For each chunk it starts
with a read, also when the chunk is in the buffer, and it takes two bytes off the length of what is
in the buffer, for the line end behind the chunk. So the body is right when the reads are in step
with the chunks.

A run has no end when the length becomes negative: the string is then asked to append so many bytes,
and throws.

## Main definitions

* `Chunk`, `ChunkedResponse`: a response in chunks, its text and its body
* `InStep`, `Orderly`: reads that are in step with the chunks, and with the whole response
* `Decodes`: the call returns a body, and what is in the buffer fits into it

## Main results

* `leads_chunk`: the reads of a chunk
* `decodes_chunks`: the loop over the chunks, on reads in step
-/

namespace Sylar

open Foundation

namespace Http

/-! ## Responses -/

structure Chunk where
  header : ChunkHeader
  data : List UInt8

namespace Chunk

def dump (chunk : Chunk) : List UInt8 := chunk.header.dump ++ (chunk.data ++ [13, 10])

/-- The size is that of the data, which is not empty. -/
structure Regular (chunk : Chunk) : Prop where
  header : chunk.header.Regular
  value : chunk.header.value = chunk.data.length
  nonempty : chunk.data ≠ []

end Chunk

/-- A response in chunks, the last of which has size zero. -/
structure ChunkedResponse where
  head : ResponseHead
  chunks : List Chunk
  last : ChunkHeader
  trailer : List Line

namespace ChunkedResponse

def dump (r : ChunkedResponse) : List UInt8 :=
  r.head.dump ++ (r.chunks.flatMap Chunk.dump ++
    (r.last.dump ++ (r.trailer.flatMap Line.dump ++ [13, 10])))

def body (r : ChunkedResponse) : List UInt8 := r.chunks.flatMap Chunk.data

structure Regular (r : ChunkedResponse) : Prop where
  head : r.head.Regular
  chunked : ∃ line ∈ r.head.lines, line.IsChunked
  chunks : ∀ chunk ∈ r.chunks, chunk.Regular
  last : r.last.Regular
  zero : r.last.value = 0
  trailer : ∀ line ∈ r.trailer, line.Regular

end ChunkedResponse

/-! ## Reads -/

/-- **The reads are in step with the chunks.** With the read that the call makes for it the header
of a chunk is in the buffer, and behind it at least two bytes of the chunk and its line end, and
nothing else. Where the rest of these comes in further reads, it makes no difference that the call
keeps the rest and leaves out the last two bytes in the buffer. -/
inductive InStep (last : ChunkHeader) : List UInt8 → List Chunk → List (List UInt8) → Prop
  | last {left d x : List UInt8} (reads : List (List UInt8)) :
      left ++ d = last.dump ++ x → 2 ≤ x.length → InStep last left [] (d :: reads)
  | chunk {left d x : List UInt8} {chunk : Chunk} {chunks : List Chunk}
      {more reads : List (List UInt8)} :
      left ++ d = chunk.header.dump ++ x → 2 ≤ x.length →
      x ++ more.flatten = chunk.data ++ [13, 10] →
      x.take (x.length - 2) ++ more.flatten = chunk.data →
      InStep last [] chunks reads → InStep last left (chunk :: chunks) (d :: (more ++ reads))

/-- The version comes in one piece, or a read ends with it; the last line of the headers leaves no
doubt; and no chunk has 2^31 bytes. -/
structure Tidy (r : ChunkedResponse) (reads : List (List UInt8)) : Prop where
  version : (∀ d ∈ reads.head?, 8 ≤ d.length) ∨
    ∃ first rest, reads = first ++ rest ∧ first.flatten.length = 8
  lines : ∀ line ∈ r.head.lines.getLast?, ¬ line.Leaves
  sizes : ∀ chunk ∈ r.chunks, chunk.data.length < 2 ^ 31

/-- A text ends within a read, with some of the reads before it and some of the read left. -/
structure Cut (text : List UInt8) (reads before : List (List UInt8)) (d left : List UInt8)
    (after : List (List UInt8)) : Prop where
  reads : reads = before ++ (d ++ left) :: after
  nonempty : d ≠ []
  text : before.flatten ++ d = text

/-- **The reads are in step with the response**: it is tidy, and behind its head the reads are in
step with the chunks. -/
structure Orderly (r : ChunkedResponse) (reads : List (List UInt8)) : Prop
    extends Tidy r reads where
  chunks : ∃ before d left after, Cut r.head.dump reads before d left after ∧
    InStep r.last left r.chunks after

/-! ## Calls -/

variable {lexicalCast : List UInt8 → Option UInt64} {buff_size : ℕ}
  {s t : Call HttpResponseParser} {reads more : List (List UInt8)} {d left x body : List UInt8}

/-- What is in the buffer fits into it. -/
def Held (buff_size : ℕ) (s : Call HttpResponseParser) : Prop := s.data.length ≤ buff_size

/-- A read gives no more than the call asks for, while the call goes on. -/
def InRoom (buff_size : ℕ) (s : Call HttpResponseParser) : ReadResult → Prop
  | .failed => True
  | .got d => s.point ≠ .returned → s.point ≠ .closed → d.length ≤ s.room buff_size

/-- **The call returns the body** after some of the reads, and all along what is in the buffer fits
into it. -/
def Decodes (M : Machine (Call HttpResponseParser) ReadResult) (buff_size : ℕ)
    (s : Call HttpResponseParser) (reads : List (List UInt8)) (body : List UInt8) : Prop :=
  ∃ made t, made <+: reads ∧ M.run s (made.map .got) = some t ∧ t.point = .returned ∧
    t.body = body ∧ M.Keeps (Held buff_size) s (made.map .got)

/-- The machine of a response. -/
abbrev chunkMachine (lexicalCast : List UInt8 → Option UInt64) (buff_size : ℕ) :=
  Call.machine (responseParser lexicalCast) buff_size

/-- The call comes from one state to another, does not return on the way, and what is in the buffer
fits into it. -/
inductive Leads (M : Machine (Call HttpResponseParser) ReadResult) (buff_size : ℕ) :
    Call HttpResponseParser → List (List UInt8) → Call HttpResponseParser → Prop
  | refl {s : Call HttpResponseParser} : Leads M buff_size s [] s
  | step {s t u : Call HttpResponseParser} {d : List UInt8} {reads : List (List UInt8)} :
      Held buff_size s → s.point ≠ .returned → M.step s (.got d) = some t →
      Leads M buff_size t reads u → Leads M buff_size s (d :: reads) u

section Leads

variable {M : Machine (Call HttpResponseParser) ReadResult} {made : List (List UInt8)}

theorem Leads.trans {u : Call HttpResponseParser} (h : Leads M buff_size s made t)
    (h' : Leads M buff_size t more u) : Leads M buff_size s (made ++ more) u := by
  induction h with
  | refl => exact h'
  | step hheld hpoint hstep _ ih => exact .step hheld hpoint hstep (ih h')

theorem Decodes.held (h : Decodes M buff_size s reads body) : Held buff_size s := by
  obtain ⟨made, u, -, -, -, -, hkeeps⟩ := h
  exact hkeeps.head

theorem Decodes.tail (hpoint : s.point ≠ .returned) (hstep : M.step s (.got d) = some t)
    (h : Decodes M buff_size s (d :: reads) body) : Decodes M buff_size t reads body := by
  obtain ⟨made, u, hmade, hrun, hend, hbody, hkeeps⟩ := h
  cases made with
  | nil =>
    obtain rfl := Option.some.inj hrun
    exact absurd hend hpoint
  | cons e made =>
    obtain ⟨rfl, hrest⟩ := List.cons_prefix_cons.mp hmade
    rw [List.map_cons, Machine.run_cons, hstep, Option.bind_some] at hrun
    exact ⟨made, u, hrest, hrun, hend, hbody, hkeeps.2 t hstep⟩

/-- A read that is not the last one. -/
theorem decodes_step_iff (hheld : Held buff_size s) (hpoint : s.point ≠ .returned)
    (hstep : M.step s (.got d) = some t) :
    Decodes M buff_size s (d :: reads) body ↔ Decodes M buff_size t reads body := by
  refine ⟨.tail hpoint hstep, ?_⟩
  rintro ⟨made, u, hmade, hrun, hend, hbody, hkeeps⟩
  refine ⟨d :: made, u, List.cons_prefix_cons.mpr ⟨rfl, hmade⟩, ?_, hend, hbody, hheld, ?_⟩
  · rw [List.map_cons, Machine.run_cons, hstep, Option.bind_some, hrun]
  · intro u' hu'
    obtain rfl := Option.some.inj (hstep.symm.trans hu')
    exact hkeeps

/-- **What a call decodes** it decodes from any state on its way. -/
theorem Leads.decodes_iff (h : Leads M buff_size s made t) :
    Decodes M buff_size s (made ++ reads) body ↔ Decodes M buff_size t reads body := by
  induction h with
  | refl => exact Iff.rfl
  | step hheld hpoint hstep _ ih => exact (decodes_step_iff hheld hpoint hstep).trans ih

theorem Leads.meets {ok : Call HttpResponseParser → ReadResult → Prop}
    (h : Leads M buff_size s made t) (hmeets : M.Meets ok s ((made ++ reads).map .got)) :
    M.Meets ok t (reads.map .got) := by
  induction h with
  | refl => exact hmeets
  | step _ _ hstep _ ih => exact ih (hmeets.2 _ hstep)

theorem Decodes.returned (hheld : Held buff_size s) (hpoint : s.point = .returned) :
    Decodes M buff_size s reads s.body :=
  ⟨[], s, List.nil_prefix, rfl, hpoint, rfl, hheld⟩

end Leads

variable (lexicalCast) in
/-- A read in the room that a call has is a step. -/
theorem step_got (hpoint : s.point = .header ∨ s.point = .chunk ∨ ∃ l, s.point = .data l)
    (hbuff : buff_size < 2 ^ 31) (hfit : InRoom buff_size s (.got d)) :
    (chunkMachine lexicalCast buff_size).step s (.got d) =
      s.receive (responseParser lexicalCast) buff_size d := by
  have hroom : s.room buff_size ≤ buff_size := by
    unfold Call.room
    rcases hpoint with h | h | ⟨l, h⟩
    · rw [h]
      exact Nat.sub_le _ _
    · rw [h]
      exact Nat.sub_le _ _
    · rw [h]
      exact Nat.min_le_right _ _
  have hle : d.length ≤ s.room buff_size := by
    apply hfit
    · rcases hpoint with h | h | ⟨l, h⟩ <;> simp [h]
    · rcases hpoint with h | h | ⟨l, h⟩ <;> simp [h]
  exact if_pos ⟨hle, by omega⟩

/-- What a call takes while it runs fits into what it asks for. -/
theorem meets_inRoom (reads : List (List UInt8))
    (h : (chunkMachine lexicalCast buff_size).run s (reads.map .got) = some t) :
    (chunkMachine lexicalCast buff_size).Meets (InRoom buff_size) s (reads.map .got) := by
  refine Machine.meets_of_run (I := fun _ => True) (P := fun _ => True) (fun _ _ _ _ _ _ => trivial)
    (fun s a u _ hroom hstep _ => hroom ?_) (fun _ _ _ _ _ => trivial) trivial h trivial
  cases a with
  | failed => trivial
  | got d =>
    intro _ _
    by_contra hlt
    have hnone : (chunkMachine lexicalCast buff_size).step s (.got d) = none :=
      if_neg fun h => hlt h.1
    rw [hnone] at hstep
    cases hstep

/-- A parser that has finished, with less than a full buffer behind. -/
theorem accepted {parser : HttpResponseParser} (herror : parser.error = 0)
    (hcs : parser.parser.cs = 120) (hbuff : buff_size < 2 ^ 31) (hlen : left.length < buff_size) :
    Accepted (responseParser lexicalCast) buff_size parser left := by
  have hint : toInt buff_size = buff_size := signed32_of_lt hbuff
  refine ⟨?_, ?_, ?_⟩
  · simp [responseParser, HttpResponseParser.hasError, HttpclientParser.hasError, herror, hcs]
  · rw [hint]
    omega
  · simp [responseParser, HttpResponseParser.isFinished, HttpclientParser.finish,
      HttpclientParser.hasError, HttpclientParser.isFinished, hcs]

/-! ## The loop over the chunks -/

section Steps

variable {σ : Type} {p : MessageParser σ} {u : Call σ} {n : ℕ}

/-- A chunk that is in the buffer. -/
theorem startChunk_whole (hn : p.content_len u.parser = n) (hle : n + 2 ≤ u.data.length) :
    u.startChunk p = some (Call.nextChunk p { u with
      body := u.body ++ u.data.take n
      data := (u.data.take (u.data.length - 2)).drop n }) := by
  have hlen : ((u.data.length : Int) - 2).toNat = u.data.length - 2 := by omega
  unfold Call.startChunk
  simp only [hn]
  rw [if_pos (by omega), if_neg (by omega), hlen, Int.toNat_natCast]

/-- A chunk of which a part is in the buffer. -/
theorem startChunk_part (hn : p.content_len u.parser = n) (htwo : 2 ≤ u.data.length)
    (hlt : u.data.length < n + 2) :
    u.startChunk p = some { u with
      body := u.body ++ u.data.take (u.data.length - 2)
      data := []
      point := .data (n + 2 - u.data.length : ℕ) } := by
  have hlen : ((u.data.length : Int) - 2).toNat = u.data.length - 2 := by omega
  have hleft : (n : Int) - (u.data.length - 2) = (n + 2 - u.data.length : ℕ) := by omega
  unfold Call.startChunk
  simp only [hn]
  rw [if_neg (by omega), if_neg (by omega), hlen, hleft, if_pos (by omega)]

theorem nextChunk_more (h : p.chunks_done u.parser = false) :
    u.nextChunk p = { u with point := .chunk } := by
  unfold Call.nextChunk
  rw [if_neg (Bool.not_eq_true _ ▸ h)]

theorem nextChunk_done (h : p.chunks_done u.parser = true) : u.nextChunk p = u.finish := by
  unfold Call.nextChunk
  rw [if_pos h]

end Steps

/-- The call is at the read for a chunk, with a parser that has no error. -/
structure AtChunk (s : Call HttpResponseParser) (left : List UInt8) : Prop where
  point : s.point = .chunk
  error : s.parser.error = 0
  data : s.data = left

theorem AtChunk.ne_returned (hs : AtChunk s left) : s.point ≠ .returned := by
  rw [hs.point]
  nofun

theorem AtChunk.room (hs : AtChunk s left) (hheld : Held buff_size s)
    (hfit : InRoom buff_size s (.got d)) : left.length + d.length ≤ buff_size := by
  have hroom := hfit (by simp [hs.point]) (by simp [hs.point])
  unfold Held at hheld
  unfold Call.room at hroom
  simp only [hs.point, hs.data] at hroom hheld
  omega

variable (lexicalCast) in
/-- A read that completes the header of a chunk. -/
theorem receive_chunk {header : ChunkHeader} (hs : AtChunk s left) (hheader : header.Regular)
    (hsize : header.value < 2 ^ 31) (hd : d ≠ []) (heq : left ++ d = header.dump ++ x)
    (hbuff : buff_size < 2 ^ 31) (hlen : left.length + d.length ≤ buff_size) :
    ∃ parser : HttpResponseParser, parser.error = 0 ∧ parser.parser.content_len = header.value ∧
      parser.parser.chunks_done = decide (header.value = 0) ∧
      s.receive (responseParser lexicalCast) buff_size d =
        Call.startChunk (responseParser lexicalCast) { s with parser := parser, data := x } := by
  obtain ⟨parser, hexec, herror, hcs, hcontent, hdone⟩ :=
    HttpResponseParser.execute_chunk hs.error hheader hsize x
  refine ⟨parser, herror, hcontent, hdone, ?_⟩
  have hcall : (responseParser lexicalCast).executeChunk s.parser (s.data ++ d) =
      some (parser, header.dump.length, x) := by
    rw [hs.data, heq]
    exact hexec
  have hpos : 0 < header.size.length := List.length_pos_iff.mpr hheader.sized
  obtain ⟨hnoError, hfull, hfinished⟩ :
      Accepted (responseParser lexicalCast) buff_size parser x := by
    apply accepted herror hcs hbuff
    have hlength := congrArg List.length heq
    rw [List.length_append, List.length_append, ChunkHeader.dump, List.length_append] at hlength
    omega
  unfold Call.receive
  simp only [hs.point]
  rw [if_neg hd, hcall, Option.bind_some, Call.parsed, if_neg (Bool.not_eq_true _ ▸ hnoError),
    if_neg hfull, if_pos hfinished]

/-- Reads that give bytes, but none in all, are none. -/
theorem flatten_eq_nil (hmore : ∀ d ∈ more, d ≠ []) (h : more.flatten = []) : more = [] := by
  cases more with
  | nil => rfl
  | cons d more =>
    rw [List.flatten_cons, List.append_eq_nil_iff] at h
    exact absurd h.1 (hmore d (by simp))

/-- The reads of the rest of a chunk. -/
theorem leads_data {l : ℕ} (hpoint : s.point = .data l) (hpos : 0 < l)
    (hdone : s.parser.parser.chunks_done = false) (hdata : s.data = [])
    (hlen : more.flatten.length = l) (hmore : ∀ d ∈ more, d ≠ []) (hbuff : buff_size < 2 ^ 31)
    (hfit : (chunkMachine lexicalCast buff_size).Meets (InRoom buff_size) s
      ((more ++ reads).map .got)) :
    Leads (chunkMachine lexicalCast buff_size) buff_size s more
      { s with point := .chunk, body := s.body ++ more.flatten } := by
  induction more generalizing s l with
  | nil =>
    rw [List.flatten_nil, List.length_nil] at hlen
    omega
  | cons d more ih =>
    have hd : d ≠ [] := hmore d (by simp)
    have hheld : Held buff_size s := by
      rw [Held, hdata]
      exact Nat.zero_le _
    have hreturned : s.point ≠ .returned := by
      rw [hpoint]
      nofun
    rw [List.flatten_cons, List.length_append] at hlen
    rw [List.cons_append, List.map_cons] at hfit
    have hstep := step_got lexicalCast (.inr (.inr ⟨l, hpoint⟩)) hbuff hfit.1
    unfold Call.receive at hstep
    simp only [hpoint, if_neg hd] at hstep
    by_cases hleft : 0 < more.flatten.length
    · -- the chunk goes on in the next read
      have hcast : (l : Int) - d.length = (more.flatten.length : ℕ) := by omega
      rw [hcast, if_pos (Int.natCast_pos.mpr hleft)] at hstep
      rw [List.flatten_cons, ← List.append_assoc]
      exact .step hheld hreturned hstep (ih rfl hleft hdone hdata rfl
        (fun e he => hmore e (List.mem_cons_of_mem _ he)) (hfit.2 _ hstep))
    · obtain rfl : more = [] := flatten_eq_nil (fun e he => hmore e (List.mem_cons_of_mem _ he))
        (List.length_eq_zero_iff.mp (Nat.eq_zero_of_not_pos hleft))
      rw [List.flatten_nil, List.length_nil] at hlen hleft
      rw [if_neg (by omega), nextChunk_more (by exact hdone)] at hstep
      rw [List.flatten_cons, List.flatten_nil, List.append_nil]
      exact .step hheld hreturned hstep .refl

/-- **A chunk**: the call keeps what is in the buffer but for its last two bytes, and then the rest
of the chunk and its line end. -/
theorem leads_chunk {chunk : Chunk} (reads : List (List UInt8)) (hregular : chunk.Regular)
    (hsize : chunk.data.length < 2 ^ 31) (hbuff : buff_size < 2 ^ 31) (hs : AtChunk s left)
    (hheld : Held buff_size s) (hreads : ∀ e ∈ d :: more, e ≠ [])
    (heq : left ++ d = chunk.header.dump ++ x) (hx : 2 ≤ x.length)
    (hlen : x.length + more.flatten.length = chunk.data.length + 2)
    (hfit : (chunkMachine lexicalCast buff_size).Meets (InRoom buff_size) s
      ((d :: more ++ reads).map .got)) :
    ∃ t, Leads (chunkMachine lexicalCast buff_size) buff_size s (d :: more) t ∧ AtChunk t [] ∧
      t.body = s.body ++ (x.take (x.length - 2) ++ more.flatten) := by
  have hmore : ∀ e ∈ more, e ≠ [] := fun e he => hreads e (List.mem_cons_of_mem _ he)
  obtain ⟨parser, herror, hcontent, hdone, hreceive⟩ :=
    receive_chunk lexicalCast hs hregular.header
      (by rw [hregular.value]; exact hsize) (hreads d (by simp)) heq hbuff
      (hs.room hheld hfit.1)
  have hmoreChunks : parser.parser.chunks_done = false := by
    rw [hdone, hregular.value]
    exact decide_eq_false fun hnil => hregular.nonempty (List.length_eq_zero_iff.mp hnil)
  rw [hregular.value] at hcontent
  have hstep := (step_got lexicalCast (.inr (.inl hs.point)) hbuff hfit.1).trans hreceive
  by_cases hwhole : more.flatten = []
  · obtain rfl := flatten_eq_nil hmore hwhole
    rw [List.flatten_nil, List.length_nil, Nat.add_zero] at hlen
    rw [startChunk_whole hcontent (by exact hlen.ge),
      nextChunk_more (by exact hmoreChunks)] at hstep
    refine ⟨_, .step hheld hs.ne_returned hstep .refl, ⟨rfl, herror, ?_⟩, ?_⟩
    · rw [List.drop_eq_nil_iff, List.length_take]
      simp only
      omega
    · rw [List.flatten_nil, List.append_nil, hlen]
      rfl
  · have hpos : 0 < more.flatten.length := List.length_pos_iff.mpr hwhole
    rw [startChunk_part hcontent (by exact hx) (by simp only; omega)] at hstep
    refine ⟨_, .step hheld hs.ne_returned hstep (leads_data
      (l := chunk.data.length + 2 - x.length) rfl (by omega) hmoreChunks rfl (by omega) hmore hbuff
      (hfit.2 _ hstep)), ⟨rfl, herror, rfl⟩, ?_⟩
    rw [List.append_assoc]

/-- **The last chunk**: the call returns. -/
theorem decodes_last {last : ChunkHeader} (hlast : last.Regular) (hzero : last.value = 0)
    (hbuff : buff_size < 2 ^ 31) (hs : AtChunk s left) (hheld : Held buff_size s) (hd : d ≠ [])
    (heq : left ++ d = last.dump ++ x) (hx : 2 ≤ x.length) (hfit : InRoom buff_size s (.got d)) :
    Decodes (chunkMachine lexicalCast buff_size) buff_size s (d :: reads) s.body := by
  have hroom := hs.room hheld hfit
  obtain ⟨parser, herror, hcontent, hdone, hreceive⟩ :=
    receive_chunk lexicalCast hs hlast (by omega) hd heq hbuff hroom
  rw [hzero] at hcontent
  have hstep := (step_got lexicalCast (.inr (.inl hs.point)) hbuff hfit).trans hreceive
  rw [startChunk_whole hcontent (by exact Nat.le_trans (by decide) hx),
    nextChunk_done (by exact hdone.trans (decide_eq_true hzero))] at hstep
  have hlen := congrArg List.length heq
  rw [List.length_append, List.length_append] at hlen
  have hdecodes : Decodes (chunkMachine lexicalCast buff_size) buff_size s (d :: reads)
      (s.body ++ x.take 0) := by
    refine (decodes_step_iff hheld hs.ne_returned hstep).mpr (.returned ?_ rfl)
    simp only [Held, Call.finish, List.length_drop, List.length_take]
    omega
  rwa [List.take_zero, List.append_nil] at hdecodes

theorem AtChunk.held_nil (hs : AtChunk s []) : Held buff_size s := by
  rw [Held, hs.data]
  exact Nat.zero_le _

/-- **The loop over the chunks**, on reads in step: the body grows by the data of the chunks. -/
theorem decodes_chunks {last : ChunkHeader} {chunks : List Chunk} (hlast : last.Regular)
    (hzero : last.value = 0) (hchunks : ∀ chunk ∈ chunks, chunk.Regular)
    (hsizes : ∀ chunk ∈ chunks, chunk.data.length < 2 ^ 31) (hbuff : buff_size < 2 ^ 31)
    (h : InStep last left chunks reads) (hs : AtChunk s left) (hheld : Held buff_size s)
    (hreads : ∀ d ∈ reads, d ≠ [])
    (hfit : (chunkMachine lexicalCast buff_size).Meets (InRoom buff_size) s (reads.map .got)) :
    Decodes (chunkMachine lexicalCast buff_size) buff_size s reads
      (s.body ++ chunks.flatMap Chunk.data) := by
  induction h generalizing s with
  | last reads heq hx =>
    rw [List.flatMap_nil, List.append_nil]
    exact decodes_last hlast hzero hbuff hs hheld (hreads _ (by simp)) heq hx hfit.1
  | @chunk left d x chunk chunks more reads heq hx hbytes hdata _ ih =>
    have hlen := congrArg List.length hbytes
    simp only [List.length_append, List.length_cons, List.length_nil] at hlen
    obtain ⟨t, hleads, ht, hbody⟩ := leads_chunk reads (hchunks chunk (by simp)) (hsizes chunk (by simp))
      hbuff hs hheld (fun e he => hreads e (List.mem_append_left reads he)) heq hx (by omega) hfit
    have hrest := ih (fun c hc => hchunks c (List.mem_cons_of_mem _ hc))
      (fun c hc => hsizes c (List.mem_cons_of_mem _ hc)) ht ht.held_nil
      (fun e he => hreads e (by simp [he])) (hleads.meets hfit)
    rw [hbody, hdata, List.append_assoc] at hrest
    exact hleads.decodes_iff.mpr hrest

end Http

end Sylar
