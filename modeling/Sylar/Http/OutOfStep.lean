import Sylar.Http.Chunked

/-!
# Reads out of step

A call that returns the body of a response in chunks has had reads that are in step with it, when
the header of every chunk has come in one piece. Fewer than two bytes behind the header of a chunk
make the length negative; with more behind it than the chunk and its line end, the line end is taken
for the header of the next chunk; and what is missing of a chunk is read up to its end and no
further.

## Main definitions

* `HeadersWhole`: the headers of the chunks come in one piece
* `Grown`: a call that has the front of the body

## Main results

* `exists_chunk`: the reads of a chunk end where it ends
* `inStep_of_decodes`: what the loop over the chunks decodes comes in reads in step
-/

namespace Sylar

open Foundation

namespace Http

variable {lexicalCast : List UInt8 → Option UInt64} {buff_size : ℕ}
  {s t : Call HttpResponseParser} {reads more : List (List UInt8)} {d left x body : List UInt8}

/-! ## Calls that do not return -/

section OutOfStep

variable {M : Machine (Call HttpResponseParser) ReadResult}

theorem not_decodes_of_none (hpoint : s.point ≠ .returned) (hstep : M.step s (.got d) = none) :
    ¬ Decodes M buff_size s (d :: reads) body := by
  rintro ⟨made, u, hmade, hrun, hend, -⟩
  cases made with
  | nil =>
    obtain rfl := Option.some.inj hrun
    exact hpoint hend
  | cons e made =>
    obtain ⟨rfl, -⟩ := List.cons_prefix_cons.mp hmade
    rw [List.map_cons, Machine.run_cons, hstep] at hrun
    cases hrun

theorem not_decodes_nil (hpoint : s.point ≠ .returned) : ¬ Decodes M buff_size s [] body := by
  rintro ⟨made, u, hmade, hrun, hend, -⟩
  rw [List.prefix_nil] at hmade
  subst hmade
  obtain rfl := Option.some.inj hrun
  exact hpoint hend

end OutOfStep

/-- A connection that is closed gives no body. -/
theorem not_decodes_closed (hpoint : s.point = .closed) :
    ¬ Decodes (chunkMachine lexicalCast buff_size) buff_size s reads body := by
  have hne : s.point ≠ .returned := by
    rw [hpoint]
    nofun
  cases reads with
  | nil => exact not_decodes_nil hne
  | cons d reads =>
    refine not_decodes_of_none hne ?_
    simp [chunkMachine, Call.machine, Call.step, Call.receive, hpoint]

/-- A line end in front of the header of a chunk is an error. -/
theorem execute_return {parser : HttpResponseParser} (herror : parser.error = 0)
    (y : List UInt8) :
    ∃ parser' n data, parser.execute (13 :: y) true = some (parser', n, data) ∧
      parser'.parser.cs = 0 := by
  have hat := HttpResponseParser.at_fresh herror
  have hexec : parser.fresh.restart.exec (13 :: y) parser.fresh.parser.cs 0 (13 :: y) =
      some (parser.fresh.restart, 0, 0) := by
    rw [hat.cs]
    rfl
  have hbounds : (parser.fresh.restart.stop 0 0).parser.inBounds (13 :: y).length :=
    ⟨Nat.zero_le _, Nat.zero_le _, Nat.succ_pos _, Nat.zero_le _, Nat.succ_pos _⟩
  exact ⟨_, _, _, HttpResponseParser.execute_of_exec hexec hbounds rfl, rfl⟩

/-- **A line end in front of a chunk**: the call closes the connection. -/
theorem not_decodes_return {y : List UInt8} (hs : AtChunk s (13 :: y))
    (hreads : ∀ d ∈ reads, d ≠ []) :
    ¬ Decodes (chunkMachine lexicalCast buff_size) buff_size s reads body := by
  cases reads with
  | nil => exact not_decodes_nil hs.ne_returned
  | cons d reads =>
    intro h
    by_cases hroom : d.length ≤ s.room buff_size ∧ d.length < 2 ^ 31
    · obtain ⟨parser, n, data, hexec, hcs⟩ := execute_return hs.error (y ++ d)
      have hcall : (responseParser lexicalCast).executeChunk s.parser (s.data ++ d) =
          some (parser, n, data) := by
        rw [hs.data]
        exact hexec
      have herror : (responseParser lexicalCast).hasError parser = true := by
        simp [responseParser, HttpResponseParser.hasError, HttpclientParser.hasError, hcs]
      have hreceive : s.receive (responseParser lexicalCast) buff_size d =
          some (Call.close { s with parser := parser, data := data }) := by
        unfold Call.receive
        simp only [hs.point]
        rw [if_neg (hreads d (by simp)), hcall, Option.bind_some, Call.parsed, if_pos herror]
      exact not_decodes_closed rfl
        (h.tail hs.ne_returned ((if_pos hroom).trans hreceive))
    · exact not_decodes_of_none hs.ne_returned (if_neg hroom) h

/-! ## The body grows -/

/-- The call is behind the head of a response in chunks, with a body that starts with some text. -/
structure Grown (text : List UInt8) (s : Call HttpResponseParser) : Prop where
  point : s.point = .chunk ∨ (∃ l, s.point = .data l) ∨ s.point = .closed ∨ s.point = .returned
  body : text <+: s.body

section Grown

variable {p : MessageParser HttpResponseParser} {text : List UInt8}

theorem grown_nextChunk (h : text <+: s.body) : Grown text (s.nextChunk p) := by
  unfold Call.nextChunk
  split_ifs
  · exact ⟨.inr (.inr (.inr rfl)), h⟩
  · exact ⟨.inl rfl, h⟩

theorem Grown.startChunk (h : Grown text s) (hstart : s.startChunk p = some t) : Grown text t := by
  unfold Call.startChunk at hstart
  simp only at hstart
  split_ifs at hstart with hle hneg hlen hleft
  · obtain rfl := Option.some.inj hstart
    exact grown_nextChunk (h.body.trans (List.prefix_append _ _))
  · obtain rfl := Option.some.inj hstart
    exact ⟨.inr (.inl ⟨_, rfl⟩), h.body.trans (List.prefix_append _ _)⟩
  · obtain rfl := Option.some.inj hstart
    exact grown_nextChunk (h.body.trans (List.prefix_append _ _))

/-- A read adds to the body. -/
theorem Grown.step (h : Grown text s)
    (hstep : (chunkMachine lexicalCast buff_size).step s (.got d) = some t) : Grown text t := by
  have hclosed : Grown text s.close := ⟨.inr (.inr (.inl rfl)), h.body⟩
  simp only [chunkMachine, Call.machine, Call.step] at hstep
  split_ifs at hstep
  unfold Call.receive at hstep
  rcases h.point with hpoint | ⟨l, hpoint⟩ | hpoint | hpoint
  · simp only [hpoint] at hstep
    split_ifs at hstep
    · obtain rfl := Option.some.inj hstep
      exact hclosed
    · obtain ⟨⟨parser, n, data⟩, -, hparsed⟩ := Option.bind_eq_some_iff.mp hstep
      unfold Call.parsed at hparsed
      split_ifs at hparsed
      · obtain rfl := Option.some.inj hparsed
        exact ⟨hclosed.point, h.body⟩
      · obtain rfl := Option.some.inj hparsed
        exact ⟨hclosed.point, h.body⟩
      · refine Grown.startChunk ?_ hparsed
        exact ⟨.inl rfl, h.body⟩
      · obtain rfl := Option.some.inj hparsed
        exact ⟨.inl rfl, h.body⟩
  · simp only [hpoint] at hstep
    split_ifs at hstep
    · obtain rfl := Option.some.inj hstep
      exact hclosed
    · obtain rfl := Option.some.inj hstep
      exact ⟨.inr (.inl ⟨_, rfl⟩), h.body.trans (List.prefix_append _ _)⟩
    · obtain rfl := Option.some.inj hstep
      exact grown_nextChunk (h.body.trans (List.prefix_append _ _))
  · simp [hpoint] at hstep
  · simp [hpoint] at hstep

/-- **What a call has of the body** stays at the front of what it returns. -/
theorem Grown.isPrefix (h : Grown text s)
    (hdecodes : Decodes (chunkMachine lexicalCast buff_size) buff_size s reads body) :
    text <+: body := by
  obtain ⟨made, u, -, hrun, -, rfl, -⟩ := hdecodes
  clear reads
  induction made generalizing s with
  | nil =>
    obtain rfl := Option.some.inj hrun
    exact h.body
  | cons d made ih =>
    rw [List.map_cons, Machine.run_cons, Option.bind_eq_some_iff] at hrun
    obtain ⟨t, hstep, hrun⟩ := hrun
    exact ih (h.step hstep) hrun

end Grown

/-! ## The reads of a chunk -/

theorem startChunk_none {σ : Type} {p : MessageParser σ} {u : Call σ} {n : ℕ}
    (hn : p.content_len u.parser = n) (hlt : u.data.length < 2) : u.startChunk p = none := by
  unfold Call.startChunk
  simp only [hn]
  rw [if_neg (by omega), if_pos (by omega)]

/-- What is missing of a chunk comes in reads of its own. -/
theorem exists_rest {l : ℕ} (hpoint : s.point = .data l) (hpos : 0 < l) (hbuff : buff_size < 2 ^ 31)
    (hreads : ∀ d ∈ reads, d ≠ [])
    (hfit : (chunkMachine lexicalCast buff_size).Meets (InRoom buff_size) s (reads.map .got))
    (h : Decodes (chunkMachine lexicalCast buff_size) buff_size s reads body) :
    ∃ more rest, reads = more ++ rest ∧ more.flatten.length = l := by
  have hreturned : s.point ≠ .returned := by
    rw [hpoint]
    nofun
  induction reads generalizing s l with
  | nil => exact absurd h (not_decodes_nil hreturned)
  | cons d reads ih =>
    have hroom : d.length ≤ l := by
      have hle := hfit.1 hreturned (by simp [hpoint])
      have hint : toInt buff_size = buff_size := signed32_of_lt hbuff
      unfold Call.room Streams.toSize at hle
      simp only [hpoint, hint] at hle
      omega
    have hstep := step_got lexicalCast (.inr (.inr ⟨l, hpoint⟩)) hbuff hfit.1
    unfold Call.receive at hstep
    simp only [hpoint, if_neg (hreads d (by simp))] at hstep
    by_cases hleft : d.length < l
    · have hcast : (l : Int) - d.length = (l - d.length : ℕ) := by omega
      rw [hcast, if_pos (by omega)] at hstep
      obtain ⟨more, rest, rfl, hlen⟩ := ih rfl (by omega)
        (fun e he => hreads e (List.mem_cons_of_mem _ he)) (hfit.2 _ hstep)
        (h.tail hreturned hstep) nofun
      refine ⟨d :: more, rest, rfl, ?_⟩
      rw [List.flatten_cons, List.length_append, hlen]
      omega
    · exact ⟨[d], reads, rfl, by simp; omega⟩

/-- A read after which fewer than two bytes are behind the header of a chunk. -/
theorem two_le_of_decodes {header : ChunkHeader} (hheader : header.Regular)
    (hsize : header.value < 2 ^ 31) (hbuff : buff_size < 2 ^ 31) (hs : AtChunk s left)
    (hd : d ≠ []) (heq : left ++ d = header.dump ++ x) (hfit : InRoom buff_size s (.got d))
    (h : Decodes (chunkMachine lexicalCast buff_size) buff_size s (d :: reads) body) :
    2 ≤ x.length := by
  by_contra hlt
  obtain ⟨parser, -, hcontent, -, hreceive⟩ :=
    receive_chunk lexicalCast hs hheader hsize hd heq hbuff (hs.room h.held hfit)
  have hstep := (step_got lexicalCast (.inr (.inl hs.point)) hbuff hfit).trans hreceive
  rw [startChunk_none hcontent (Nat.lt_of_not_le hlt)] at hstep
  exact not_decodes_of_none hs.ne_returned hstep h

/-- **The reads of a chunk** end where it ends. -/
theorem exists_chunk {chunk : Chunk} {after : List (List UInt8)} {text : List UInt8}
    (hregular : chunk.Regular) (hsize : chunk.data.length < 2 ^ 31) (hbuff : buff_size < 2 ^ 31)
    (hs : AtChunk s left) (hreads : ∀ e ∈ d :: after, e ≠ [])
    (heq : left ++ d = chunk.header.dump ++ x)
    (hbytes : x ++ after.flatten = chunk.data ++ 13 :: 10 :: text)
    (hfit : (chunkMachine lexicalCast buff_size).Meets (InRoom buff_size) s
      ((d :: after).map .got))
    (h : Decodes (chunkMachine lexicalCast buff_size) buff_size s (d :: after) body) :
    ∃ more rest, after = more ++ rest ∧
      x.length + more.flatten.length = chunk.data.length + 2 := by
  have htwo := two_le_of_decodes hregular.header (by rw [hregular.value]; exact hsize) hbuff hs
    (hreads d (by simp)) heq hfit.1 h
  obtain ⟨parser, herror, hcontent, hdone, hreceive⟩ :=
    receive_chunk lexicalCast hs hregular.header
      (by rw [hregular.value]; exact hsize) (hreads d (by simp)) heq hbuff (hs.room h.held hfit.1)
  rw [hregular.value] at hcontent
  have hmore : parser.parser.chunks_done = false := by
    rw [hdone, hregular.value]
    exact decide_eq_false fun hnil => hregular.nonempty (List.length_eq_zero_iff.mp hnil)
  have hstep := (step_got lexicalCast (.inr (.inl hs.point)) hbuff hfit.1).trans hreceive
  -- a part of the chunk, all of it with its line end, or more than that
  rcases Nat.lt_trichotomy x.length (chunk.data.length + 2) with hlt | hwhole | hgt
  · rw [startChunk_part hcontent (by exact htwo) hlt] at hstep
    obtain ⟨more, rest, hafter, hlen⟩ := exists_rest
      (l := chunk.data.length + 2 - x.length) rfl (by omega) hbuff
      (fun e he => hreads e (List.mem_cons_of_mem _ he)) (hfit.2 _ hstep)
      (h.tail hs.ne_returned hstep)
    exact ⟨more, rest, hafter, by omega⟩
  · exact ⟨[], after, rfl, hwhole⟩
  · -- the line end of the chunk stays in the buffer
    rw [startChunk_whole hcontent (by exact hgt.le), nextChunk_more (by exact hmore)] at hstep
    obtain ⟨y, hy⟩ : ∃ y, (x.take (x.length - 2)).drop chunk.data.length = 13 :: y := by
      have hdrop : x.drop chunk.data.length ++ after.flatten = 13 :: 10 :: text := by
        rw [← List.drop_append_of_le_length (by omega), hbytes, List.drop_left]
      have hk : x.length - 2 - chunk.data.length = x.length - 3 - chunk.data.length + 1 := by omega
      rw [List.drop_take, hk]
      cases hcons : x.drop chunk.data.length with
      | nil =>
        rw [List.drop_eq_nil_iff] at hcons
        omega
      | cons c y =>
        rw [hcons, List.cons_append] at hdrop
        obtain ⟨rfl, -⟩ := List.cons.inj hdrop
        exact ⟨_, List.take_succ_cons⟩
    simp only [hy] at hstep
    exact absurd (h.tail hs.ne_returned hstep) (not_decodes_return ⟨rfl, herror, rfl⟩
      fun e he => hreads e (List.mem_cons_of_mem _ he))

/-- Every chunk that the call comes to has its header in the buffer with the first read for it. -/
def HeadersWhole (last : ChunkHeader) : List UInt8 → List Chunk → List (List UInt8) → Prop
  | left, [], reads => ∀ d ∈ reads.head?, last.dump <+: left ++ d
  | left, chunk :: chunks, reads => ∀ d after, reads = d :: after →
    chunk.header.dump <+: left ++ d ∧ ∀ more rest, after = more ++ rest →
      left ++ (d ++ more.flatten) = chunk.dump → HeadersWhole last [] chunks rest

/-- **What the loop over the chunks decodes** it decodes from reads in step. -/
theorem inStep_of_decodes {last : ChunkHeader} {chunks : List Chunk} {text : List UInt8}
    (hlast : last.Regular) (hzero : last.value = 0) (hchunks : ∀ chunk ∈ chunks, chunk.Regular)
    (hsizes : ∀ chunk ∈ chunks, chunk.data.length < 2 ^ 31) (hbuff : buff_size < 2 ^ 31)
    (hs : AtChunk s left) (hreads : ∀ d ∈ reads, d ≠ [])
    (htext : left ++ reads.flatten = chunks.flatMap Chunk.dump ++ text)
    (hwhole : HeadersWhole last left chunks reads)
    (hfit : (chunkMachine lexicalCast buff_size).Meets (InRoom buff_size) s (reads.map .got))
    (h : Decodes (chunkMachine lexicalCast buff_size) buff_size s reads
      (s.body ++ chunks.flatMap Chunk.data)) : InStep last left chunks reads := by
  induction chunks generalizing s left reads with
  | nil =>
    cases reads with
    | nil => exact absurd h (not_decodes_nil hs.ne_returned)
    | cons d reads =>
      obtain ⟨x, hx⟩ := hwhole d rfl
      exact .last reads hx.symm
        (two_le_of_decodes hlast (by omega) hbuff hs (hreads d (by simp)) hx.symm hfit.1 h)
  | cons chunk chunks ih =>
    cases reads with
    | nil => exact absurd h (not_decodes_nil hs.ne_returned)
    | cons d after =>
      obtain ⟨⟨x, hx⟩, hnext⟩ := hwhole d after rfl
      have hbytes : x ++ after.flatten =
          chunk.data ++ 13 :: 10 :: (chunks.flatMap Chunk.dump ++ text) := by
        rw [List.flatten_cons, ← List.append_assoc, ← hx, List.flatMap_cons, Chunk.dump] at htext
        simpa using htext
      have hregular := hchunks chunk (by simp)
      have htwo := two_le_of_decodes hregular.header
        (by rw [hregular.value]; exact hsizes chunk (by simp)) hbuff hs (hreads d (by simp)) hx.symm
        hfit.1 h
      obtain ⟨more, rest, rfl, hlen⟩ :=
        exists_chunk hregular (hsizes chunk (by simp)) hbuff hs hreads hx.symm hbytes hfit h
      rw [List.flatten_append, ← List.append_assoc] at hbytes
      -- the reads give the chunk and its line end
      obtain ⟨hchunk, hrest⟩ : x ++ more.flatten = chunk.data ++ [13, 10] ∧
          rest.flatten = chunks.flatMap Chunk.dump ++ text :=
        List.append_inj (hbytes.trans (List.append_assoc chunk.data [13, 10] _).symm)
          (by rw [List.length_append, hlen, List.length_append]; rfl)
      obtain ⟨t, hleads, ht, hbody⟩ := leads_chunk rest hregular
        (hsizes chunk (by simp)) hbuff hs h.held
        (fun e he => hreads e (List.mem_append_left rest he)) hx.symm htwo hlen hfit
      have hafter := hleads.decodes_iff.mp h
      -- the body only grows, so what stands in it already is right
      have hdata : x.take (x.length - 2) ++ more.flatten = chunk.data := by
        have hgrown : Grown (s.body ++ (x.take (x.length - 2) ++ more.flatten)) t :=
          ⟨.inl ht.point, hbody ▸ List.prefix_rfl⟩
        have hisPrefix := hgrown.isPrefix hafter
        rw [List.prefix_append_right_inj, List.flatMap_cons] at hisPrefix
        have hlength : (x.take (x.length - 2) ++ more.flatten).length = chunk.data.length := by
          rw [List.length_append, List.length_take]
          omega
        exact (List.prefix_of_prefix_length_le hisPrefix (List.prefix_append _ _)
          hlength.le).eq_of_length hlength
      refine .chunk hx.symm htwo hchunk hdata (ih
        (fun c hc => hchunks c (List.mem_cons_of_mem _ hc))
        (fun c hc => hsizes c (List.mem_cons_of_mem _ hc)) ht
        (fun e he => hreads e (by simp [he])) hrest ?_ (hleads.meets hfit) ?_)
      · refine hnext more rest rfl ?_
        rw [← List.append_assoc, ← hx, List.append_assoc, hchunk, Chunk.dump]
      · rwa [hbody, hdata, List.append_assoc]

end Http

end Sylar
