import Sylar.Http.Limits
import Sylar.Http.OutOfStep

/-!
# Responses in chunks, decoded

The loop for the head of a response, and the whole call: it returns the data of the chunks when the
reads are in step with the response and, if the version and the headers of the chunks come in one
piece, only then.

## Main results

* `leads_response`: the head of a response
* `decodes_orderly`: the call
-/

namespace Sylar

open Foundation

namespace Http

variable {lexicalCast : List UInt8 → Option UInt64} {buff_size : ℕ}
  {s t : Call HttpResponseParser} {reads more : List (List UInt8)} {d left x body : List UInt8}

/-! ## The head -/

/-- The call is at a read of the loop for the head. -/
structure AtHead (s : Call HttpResponseParser) : Prop where
  point : s.point = .header
  data : s.data = []

variable (lexicalCast) in
/-- A read within the head. -/
theorem receive_more {parser : HttpResponseParser} {y : ℕ × Bool} {n : ℕ} (hs : AtHead s)
    (hd : d ≠ []) (hexec : s.parser.execute d false = some (parser, n, [])) (hat : parser.At y)
    (hy : y.1 ≠ 0 ∧ y.1 < 120) (hbuff : buff_size < 2 ^ 31) (hpos : 0 < buff_size) :
    s.receive (responseParser lexicalCast) buff_size d =
      some { s with parser := parser, data := [], header := s.header + n } := by
  have hcall : (responseParser lexicalCast).execute s.parser (s.data ++ d) =
      some (parser, n, []) := by
    rw [hs.data]
    exact hexec
  have hnoError : (responseParser lexicalCast).hasError parser = false := by
    simp [responseParser, HttpResponseParser.hasError, HttpclientParser.hasError, hat.error, hat.cs,
      hy.1]
  have hfinished : (responseParser lexicalCast).isFinished parser = false := by
    have hne : y.1 ≠ 120 := by omega
    simp [responseParser, HttpResponseParser.isFinished, HttpclientParser.finish,
      HttpclientParser.hasError, HttpclientParser.isFinished, hat.cs, hy.1, hne]
  have hfull : (([] : List UInt8).length : Int) ≠ toInt buff_size := by
    have hint : toInt buff_size = buff_size := signed32_of_lt hbuff
    rw [hint, List.length_nil]
    omega
  unfold Call.receive
  simp only [hs.point]
  rw [if_neg hd, hcall, Option.bind_some, Call.parsed, if_neg (Bool.not_eq_true _ ▸ hnoError),
    if_neg hfull, if_neg (Bool.not_eq_true _ ▸ hfinished)]

theorem AtHead.held (hs : AtHead s) : Held buff_size s := by
  rw [Held, hs.data]
  exact Nat.zero_le _

theorem AtHead.ne_returned (hs : AtHead s) : s.point ≠ .returned := by
  rw [hs.point]
  nofun

theorem AtHead.room (hs : AtHead s) (hfit : InRoom buff_size s (.got d)) :
    d.length ≤ buff_size := by
  have hroom := hfit (by simp [hs.point]) (by simp [hs.point])
  unfold Call.room at hroom
  simp only [hs.point, hs.data, List.length_nil, Nat.sub_zero] at hroom
  exact hroom

section Head

variable {p : ℕ} {x : ℕ × Bool} {text : List UInt8} {s₁ : HttpResponseParser}

/-- A read that ends within the head. -/
theorem step_more {parser : HttpResponseParser} {y : ℕ × Bool} {n : ℕ} (hs : AtHead s)
    (hd : d ≠ []) (hexec : s.parser.execute d false = some (parser, n, [])) (hat : parser.At y)
    (hy : y.1 ≠ 0 ∧ y.1 < 120) (hbuff : buff_size < 2 ^ 31) (hfit : InRoom buff_size s (.got d)) :
    ∃ t, (chunkMachine lexicalCast buff_size).step s (.got d) = some t ∧ AtHead t ∧
      t.parser.At y ∧ t.body = s.body := by
  have hpos := List.length_pos_iff.mpr hd
  have hroom := hs.room hfit
  have hreceive := receive_more lexicalCast hs hd hexec hat hy hbuff (by omega)
  exact ⟨_, (step_got lexicalCast (.inl hs.point) hbuff hfit).trans hreceive, ⟨hs.point, rfl⟩, hat, rfl⟩

/-- A read with the end of the head. -/
theorem step_done (hs : AtHead s)
    (hcomes : HttpResponseParser.Comes d s.parser p x (text ++ 10 :: left) s₁)
    (htrack : HttpResponseParser.track HttpResponseParser.every x text = some (3, true))
    (hbuff : buff_size < 2 ^ 31) (hfit : InRoom buff_size s (.got d)) (hd : ∃ e, d = e ++ left) :
    ∃ t, (chunkMachine lexicalCast buff_size).step s (.got d) = some t ∧ AtChunk t left ∧
      t.body = s.body ∧ Held buff_size t := by
  obtain ⟨s₂, n, hexec, hn, herror, hchunked, -⟩ := hcomes.execute_done (P := fun _ => True)
    (fun _ _ _ _ _ _ _ => trivial) htrack trivial
  obtain ⟨e, rfl⟩ := hd
  have hlen := hcomes.length
  have hroom := hs.room hfit
  simp only [List.length_append, List.length_cons] at hlen hroom
  have hleft : (e ++ left).drop n = left := List.drop_left' (by omega)
  rw [hleft] at hexec
  set parser := (s₂.update ({ · with body_start := n })).stop 120 n with hparser
  have hcall : (responseParser lexicalCast).execute s.parser (s.data ++ (e ++ left)) =
      some (parser, n, left) := by
    rw [hs.data]
    exact hexec
  have haccepted : Accepted (responseParser lexicalCast) buff_size parser left :=
    accepted herror rfl hbuff (by omega)
  have hreceive := receive_header hs.point (List.append_ne_nil_of_left_ne_nil
    (List.ne_nil_of_length_pos (by omega)) _) hcall haccepted
  have hflag : (responseParser lexicalCast).chunked parser = true := hchunked
  rw [Call.behindHeader, if_pos hflag] at hreceive
  refine ⟨_, (step_got lexicalCast (.inl hs.point) hbuff hfit).trans hreceive, ⟨rfl, herror, rfl⟩, rfl, ?_⟩
  simp only [Held]
  omega

end Head

/-- **The loop for the head**, behind its version. -/
theorem leads_head {before after : List (List UInt8)} {x : ℕ × Bool} {text : List UInt8}
    (htrack : HttpResponseParser.track HttpResponseParser.every x (before.flatten ++ text) =
      some (3, true))
    (hs : AtHead s) (hat : s.parser.At x) (hbuff : buff_size < 2 ^ 31)
    (hreads : ∀ d ∈ before, d ≠ [])
    (hfit : (chunkMachine lexicalCast buff_size).Meets (InRoom buff_size) s
      ((before ++ (text ++ 10 :: left) :: after).map .got)) :
    ∃ t, Leads (chunkMachine lexicalCast buff_size) buff_size s (before ++ [text ++ 10 :: left]) t ∧
      AtChunk t left ∧ t.body = s.body ∧ Held buff_size t := by
  induction before generalizing s x with
  | nil =>
    have hcomes : HttpResponseParser.Comes (text ++ 10 :: left) s.parser 0 x (text ++ 10 :: left)
        s.parser.restart := hat.comes (by simp)
    obtain ⟨t, hstep, ht, hbody, hheld⟩ :=
      step_done hs hcomes htrack hbuff hfit.1 ⟨text ++ [10], by simp⟩
    exact ⟨t, .step hs.held hs.ne_returned hstep .refl, ht, hbody, hheld⟩
  | cons d before ih =>
    rw [List.flatten_cons, List.append_assoc] at htrack
    obtain ⟨y, hfirst, hrest⟩ := HttpResponseParser.exists_track htrack
    have hd := hreads d (by simp)
    obtain ⟨parser, hexec, hat'⟩ := (hat.comes hd).execute hfirst
    obtain ⟨t, hstep, ht, hat', hbody⟩ :=
      step_more hs hd hexec hat' (HttpResponseParser.lt_of_track hfirst hd) hbuff hfit.1
    obtain ⟨u, hleads, hu, hbody', hheld⟩ :=
      ih hrest ht hat' (fun e he => hreads e (List.mem_cons_of_mem _ he)) (hfit.2 t hstep)
    exact ⟨u, .step hs.held hs.ne_returned hstep hleads, hu, hbody'.trans hbody, hheld⟩

/-- The loop for the head, over reads of the version. -/
theorem leads_version {first rest : List (List UInt8)} {version : List UInt8} {i : ℕ}
    (hversion : version ∈ [bytes "HTTP/1.0", bytes "HTTP/1.1"])
    (hfirst : first.flatten = version.drop i) (hi : i ≤ 8) (hs : AtHead s)
    (hat : s.parser.At (HttpResponseParser.versionState i, false)) (hbuff : buff_size < 2 ^ 31)
    (hreads : ∀ d ∈ first, d ≠ [])
    (hfit : (chunkMachine lexicalCast buff_size).Meets (InRoom buff_size) s
      ((first ++ rest).map .got)) :
    ∃ t, Leads (chunkMachine lexicalCast buff_size) buff_size s first t ∧ AtHead t ∧
      t.parser.At (15, false) ∧ t.body = s.body := by
  have hlen := congrArg List.length hfirst
  rw [List.length_drop, HttpResponseParser.length_version hversion] at hlen
  induction first generalizing s i with
  | nil =>
    rw [List.flatten_nil, List.length_nil] at hlen
    obtain rfl : i = 8 := by omega
    exact ⟨s, .refl, hs, hat, rfl⟩
  | cons d first ih =>
    rw [List.flatten_cons] at hfirst
    rw [List.flatten_cons, List.length_append] at hlen
    have hd := hreads d (by simp)
    have hpos := List.length_pos_iff.mpr hd
    have hrest : first.flatten = version.drop (i + d.length) := by
      rw [← List.drop_drop, ← hfirst, List.drop_left]
    obtain ⟨parser, hexec, hat'⟩ :=
      HttpResponseParser.execute_version hversion hat hd ⟨first.flatten, hfirst⟩
    have hstate : HttpResponseParser.versionState (i + d.length) = 7 + (i + d.length) :=
      if_neg (by omega)
    obtain ⟨t, hstep, ht, hat₁, hbody⟩ := step_more hs hd hexec hat'
      (by simp only [hstate]; omega) hbuff hfit.1
    obtain ⟨u, hleads, hu, hat₂, hbody'⟩ := ih hrest (by omega) ht hat₁
      (fun e he => hreads e (List.mem_cons_of_mem _ he)) (hfit.2 t hstep) (by omega)
    exact ⟨u, .step hs.held hs.ne_returned hstep hleads, hu, hat₂, hbody'.trans hbody⟩

/-- The loop for the head, with the version in the first read. -/
theorem leads_start {before after : List (List UInt8)} {version rest text : List UInt8}
    (hs : AtHead s) (hat : s.parser.At (1, false))
    (hversion : version ∈ [bytes "HTTP/1.0", bytes "HTTP/1.1"])
    (htrack : HttpResponseParser.track HttpResponseParser.every (15, false) rest = some (3, true))
    (htext : before.flatten ++ text = version ++ rest) (hlen : ∀ d ∈ before.head?, 8 ≤ d.length)
    (hbuff : buff_size < 2 ^ 31) (hreads : ∀ d ∈ before, d ≠ [])
    (hfit : (chunkMachine lexicalCast buff_size).Meets (InRoom buff_size) s
      ((before ++ (text ++ 10 :: left) :: after).map .got)) :
    ∃ t, Leads (chunkMachine lexicalCast buff_size) buff_size s (before ++ [text ++ 10 :: left]) t ∧
      AtChunk t left ∧ t.body = s.body ∧ Held buff_size t := by
  cases before with
  | nil =>
    obtain rfl : text = version ++ rest := htext
    have hcomes := HttpResponseParser.comes_version (rest ++ 10 :: left) hat hversion
    rw [← List.append_assoc] at hcomes
    obtain ⟨t, hstep, ht, hbody, hheld⟩ :=
      step_done hs hcomes htrack hbuff hfit.1 ⟨version ++ rest ++ [10], by simp⟩
    exact ⟨t, .step hs.held hs.ne_returned hstep .refl, ht, hbody, hheld⟩
  | cons d before =>
    have hd := hreads d (by simp)
    obtain ⟨text', rfl, hrest⟩ : ∃ text', d = version ++ text' ∧
        rest = text' ++ (before.flatten ++ text) := by
      rw [List.flatten_cons, List.append_assoc] at htext
      rcases List.append_eq_append_iff.mp htext with ⟨e, hv, hr⟩ | ⟨e, hd, hr⟩
      · have hle := hlen d rfl
        have hlength := congrArg List.length hv
        rw [List.length_append, HttpResponseParser.length_version hversion] at hlength
        obtain rfl : e = [] := List.eq_nil_of_length_eq_zero (by omega)
        exact ⟨[], by rw [hv]; simp, by rw [hr]; simp⟩
      · exact ⟨e, hd, hr⟩
    rw [hrest] at htrack
    obtain ⟨y, hfirst, htail⟩ := HttpResponseParser.exists_track htrack
    have hy : y.1 ≠ 0 ∧ y.1 < 120 := by
      by_cases hnil : text' = []
      · subst hnil
        obtain rfl := Option.some.inj hfirst
        exact ⟨by decide, by decide⟩
      · exact HttpResponseParser.lt_of_track hfirst hnil
    obtain ⟨parser', hexec, hat'⟩ :=
      (HttpResponseParser.comes_version text' hat hversion).execute hfirst
    obtain ⟨t, hstep, ht, hat', hbody⟩ := step_more hs hd hexec hat' hy hbuff hfit.1
    obtain ⟨u, hleads, hu, hbody', hheld⟩ := leads_head htail ht hat' hbuff
      (fun e he => hreads e (List.mem_cons_of_mem _ he)) (hfit.2 t hstep)
    exact ⟨u, .step hs.held hs.ne_returned hstep hleads, hu, hbody'.trans hbody, hheld⟩

/-- Reads that end in front of the bytes of a read come before it. -/
theorem exists_more {before after first rest : List (List UInt8)}
    (h : before ++ d :: after = first ++ rest)
    (hlt : first.flatten.length < before.flatten.length + d.length) :
    ∃ more, before = first ++ more ∧ rest = more ++ d :: after := by
  rcases List.append_eq_append_iff.mp h with ⟨more, hfirst, hrest⟩ | ⟨more, hbefore, hrest⟩
  · cases more with
    | nil => exact ⟨[], by simp [hfirst], hrest.symm⟩
    | cons e more =>
      rw [List.cons_append] at hrest
      obtain ⟨rfl, -⟩ := List.cons.inj hrest
      rw [hfirst, List.flatten_append, List.flatten_cons, List.length_append,
        List.length_append] at hlt
      omega
  · exact ⟨more, hbefore, hrest⟩

variable (lexicalCast) in
/-- **The head of a tidy response**: the call comes to the first chunk, with what is left of the
read in its buffer. -/
theorem leads_response {r : ChunkedResponse} {before after : List (List UInt8)}
    (hr : r.Regular) (htidy : Tidy r reads) (hcut : Cut r.head.dump reads before d left after)
    (hs : AtHead s) (hat : s.parser.At (1, false)) (hbuff : buff_size < 2 ^ 31)
    (hreads : ∀ d ∈ reads, d ≠ [])
    (hfit : (chunkMachine lexicalCast buff_size).Meets (InRoom buff_size) s (reads.map .got)) :
    ∃ t, Leads (chunkMachine lexicalCast buff_size) buff_size s (before ++ [d ++ left]) t ∧
      AtChunk t left ∧ t.body = s.body ∧ Held buff_size t := by
  obtain ⟨rfl, hd, hhead⟩ := hcut
  have htrack := HttpResponseParser.track_head (b := false) hr.head hr.chunked htidy.lines
  have height := HttpResponseParser.length_version hr.head.version
  have hversion := htidy.version
  -- the head ends with a line feed
  obtain ⟨text, rfl, htext⟩ : ∃ text, d = text ++ [10] ∧
      before.flatten ++ text = r.head.version ++ r.head.rest := by
    obtain ⟨text, c, rfl⟩ := (List.eq_nil_or_concat' d).resolve_left hd
    rw [ResponseHead.dump, ← List.append_assoc, ← List.append_assoc] at hhead
    obtain ⟨htext, hc⟩ := List.append_inj' hhead rfl
    exact ⟨text, by rw [hc], htext⟩
  rw [List.append_assoc, List.singleton_append] at hreads hfit hversion ⊢
  rcases hversion with hversion | ⟨first, rest, hfirst, hlen⟩
  · refine leads_start hs hat hr.head.version htrack htext (fun e he => ?_) hbuff
      (fun e he => hreads e (List.mem_append_left _ he)) hfit
    apply hversion
    rw [List.head?_append, Option.mem_def.mp he]
    rfl
  · have hlength := congrArg List.length htext
    rw [List.length_append, List.length_append] at hlength
    obtain ⟨more, rfl, rfl⟩ :=
      exists_more hfirst (by simp only [List.length_append, List.length_cons]; omega)
    rw [List.flatten_append, List.append_assoc] at htext
    obtain ⟨hfirst, hmore⟩ := List.append_inj htext (by omega)
    rw [List.append_assoc] at hreads hfit ⊢
    obtain ⟨t, hleads, ht, hat', hbody⟩ := leads_version (i := 0) hr.head.version hfirst
      (by decide) hs hat hbuff (fun e he => hreads e (List.mem_append_left _ he)) hfit
    rw [← hmore] at htrack
    obtain ⟨u, hleads', hu, hbody', hheld⟩ := leads_head htrack ht hat' hbuff
      (fun e he => hreads e (by simp [he])) (hleads.meets hfit)
    exact ⟨u, hleads.trans hleads', hu, hbody'.trans hbody, hheld⟩

/-! ## The response -/

/-- A text that the reads start with ends within one of them. -/
theorem exists_cut {text rest : List UInt8} (htext : text ≠ []) (hreads : ∀ d ∈ reads, d ≠ [])
    (h : reads.flatten = text ++ rest) :
    ∃ before d left after, Cut text reads before d left after := by
  induction reads generalizing text with
  | nil => exact absurd (List.append_eq_nil_iff.mp h.symm).1 htext
  | cons e reads ih =>
    rw [List.flatten_cons] at h
    rcases List.append_eq_append_iff.mp h with ⟨text', rfl, hrest⟩ | ⟨left, rfl, hrest⟩
    · by_cases hnil : text' = []
      · subst hnil
        exact ⟨[], e, [], reads, by simp, hreads e (by simp), by simp⟩
      · obtain ⟨before, d, left, after, rfl, hd, rfl⟩ :=
          ih hnil (fun f hf => hreads f (List.mem_cons_of_mem _ hf)) hrest
        exact ⟨e :: before, d, left, after, rfl, hd, by simp⟩
    · exact ⟨[], text, left, reads, rfl, htext, rfl⟩

/-- The reads give the response, which is tidy, and the headers of its chunks come in one piece. -/
structure Whole (r : ChunkedResponse) (reads : List (List UInt8)) : Prop extends Tidy r reads where
  dump : reads.flatten = r.dump
  headers : ∀ before d left after, Cut r.head.dump reads before d left after →
    HeadersWhole r.last left r.chunks after

/-- **A response in chunks is decoded** from reads that are in step with it: the call returns the
data of the chunks, and what is in the buffer fits into it all along. When the headers of the chunks
come in one piece, it is decoded from no other reads. -/
theorem decodes_orderly (lexicalCast : List UInt8 → Option UInt64) (limits : Limits)
    (hbuff : limits.http_response_buffer_size.toNat < 2 ^ 31) {r : ChunkedResponse}
    (hr : r.Regular) (memory : HttpclientParser) (hreads : ∀ d ∈ reads, d ≠ [])
    (hfit : (responseCall lexicalCast limits).Meets
      (InRoom limits.http_response_buffer_size.toNat) (.start (.new memory)) (reads.map .got)) :
    (Orderly r reads →
      Decodes (responseCall lexicalCast limits) limits.http_response_buffer_size.toNat
        (.start (.new memory)) reads r.body) ∧
    (Whole r reads →
      Decodes (responseCall lexicalCast limits) limits.http_response_buffer_size.toNat
        (.start (.new memory)) reads r.body → Orderly r reads) := by
  have hat : (HttpResponseParser.new memory).At (1, false) := ⟨rfl, rfl, rfl, rfl⟩
  constructor
  · rintro ⟨htidy, before, d, left, after, hcut, hstep⟩
    obtain ⟨t, hleads, ht, hbody, hheld⟩ :=
      leads_response lexicalCast hr htidy hcut (s := .start (.new memory))
        ⟨rfl, rfl⟩ hat hbuff hreads hfit
    obtain ⟨rfl, -, -⟩ := hcut
    rw [List.append_cons] at hreads hfit ⊢
    have hdecodes := decodes_chunks hr.last hr.zero hr.chunks htidy.sizes hbuff hstep ht hheld
      (fun e he => hreads e (List.mem_append_right _ he)) (hleads.meets hfit)
    rw [hbody] at hdecodes
    exact hleads.decodes_iff.mpr hdecodes
  · intro hwhole h
    have hhead : r.head.dump ≠ [] := by simp [ResponseHead.dump]
    obtain ⟨before, d, left, after, hcut⟩ := exists_cut hhead hreads hwhole.dump
    have hheaders := hwhole.headers before d left after hcut
    obtain ⟨t, hleads, ht, hbody, -⟩ :=
      leads_response lexicalCast hr hwhole.toTidy hcut (s := .start (.new memory))
        ⟨rfl, rfl⟩ hat hbuff hreads hfit
    refine ⟨hwhole.toTidy, before, d, left, after, hcut, ?_⟩
    have hdump := hwhole.dump
    obtain ⟨rfl, -, htext⟩ := hcut
    rw [List.append_cons] at hreads hfit h hdump
    have hrest : left ++ after.flatten = r.chunks.flatMap Chunk.dump ++
        (r.last.dump ++ (r.trailer.flatMap Line.dump ++ [13, 10])) := by
      rw [ChunkedResponse.dump, ← htext] at hdump
      simpa using hdump
    have hdecodes := hleads.decodes_iff.mp h
    refine inStep_of_decodes hr.last hr.zero hr.chunks hwhole.sizes hbuff ht
      (fun e he => hreads e (List.mem_append_right _ he)) hrest hheaders (hleads.meets hfit) ?_
    rwa [hbody]

/-- A response in chunks. -/
def hello : ChunkedResponse where
  head := ⟨bytes "HTTP/1.1", bytes "200", bytes "OK",
    [⟨bytes "Transfer-Encoding", bytes " ", bytes "chunked"⟩]⟩
  chunks := [⟨⟨bytes "5", []⟩, bytes "hello"⟩]
  last := ⟨bytes "0", []⟩
  trailer := []

theorem hello_regular : hello.Regular where
  head :=
    { version := by decide +kernel
      status := by decide +kernel
      digits := by decide +kernel
      reason := by decide +kernel
      lines := by
        intro line hline
        obtain rfl := List.mem_singleton.mp hline
        exact
          { named := by decide +kernel
            name := by decide +kernel
            blank := by decide +kernel
            value := by decide +kernel
            head := by decide +kernel } }
  chunked := ⟨_, List.mem_singleton_self _, rfl, rfl⟩
  chunks := by
    intro chunk hchunk
    obtain rfl := List.mem_singleton.mp hchunk
    exact ⟨⟨nofun, by decide +kernel, nofun⟩, rfl, nofun⟩
  last := ⟨nofun, by decide +kernel, nofun⟩
  zero := rfl
  trailer := nofun

/-- The response in reads that are in step with it. -/
def helloReads : List (List UInt8) :=
  [hello.head.dump, bytes "5\r\nhello\r\n", bytes "0\r\n\r\n"]

theorem helloReads_orderly : Orderly hello helloReads where
  version := .inl (by decide)
  lines := by
    intro line hline
    obtain rfl := Option.some.inj hline
    exact fun h => absurd h.1 (by decide)
  sizes := by decide
  chunks := by
    refine ⟨[], hello.head.dump, [], _, ⟨rfl, by decide, rfl⟩, ?_⟩
    have hlast : InStep hello.last [] [] [bytes "0\r\n\r\n"] :=
      .last (x := bytes "\r\n") [] rfl (by decide)
    have hchunk : InStep hello.last [] hello.chunks
        (bytes "5\r\nhello\r\n" :: ([] ++ [bytes "0\r\n\r\n"])) :=
      .chunk (x := bytes "hello\r\n") rfl (by decide) rfl rfl hlast
    exact hchunk

theorem decodes_orderly_hello :
    Decodes (responseCall decimal {}) 4096 (.start (.new .zero)) helloReads (bytes "hello") := by
  have hsome : ((responseCall decimal {}).run (.start (.new .zero))
      (helloReads.map .got)).isSome = true := by
    decide +kernel
  obtain ⟨t, hrun⟩ := Option.isSome_iff_exists.mp hsome
  exact (decodes_orderly decimal {} (by decide) hello_regular .zero (by decide)
    (meets_inRoom helloReads hrun)).1 helloReads_orderly

/-- The response in one read: the call asks for another one, and returns nothing when the stream ends
there. -/
theorem chunked_not_decoded :
    hello.Regular ∧ [hello.dump].flatten = hello.dump ∧
      (responseCall decimal {}).Meets (InRoom 4096) (.start (.new .zero)) [.got hello.dump] ∧
      ¬ Decodes (responseCall decimal {}) 4096 (.start (.new .zero)) [hello.dump] hello.body ∧
      ∃ t ∈ (responseCall decimal {}).run (.start (.new .zero)) [.got hello.dump, .got []],
        t.point = .closed := by
  have hrun : ∃ t ∈ (responseCall decimal {}).run (.start (.new .zero)) [.got hello.dump],
      t.point = .chunk := by
    decide +kernel
  have hclosed : ∃ t ∈ (responseCall decimal {}).run (.start (.new .zero))
      [.got hello.dump, .got []], t.point = .closed := by
    decide +kernel
  obtain ⟨t, ht, hpoint⟩ := hrun
  refine ⟨hello_regular, rfl, meets_inRoom [hello.dump] ht, ?_, hclosed⟩
  rintro ⟨made, u, hmade, hu, hreturned, -⟩
  rcases List.prefix_cons_iff.mp hmade with rfl | ⟨more, rfl, hmore⟩
  · obtain rfl := Option.some.inj hu
    cases hreturned
  · obtain rfl := List.prefix_nil.mp hmore
    obtain rfl := Option.some.inj (hu.symm.trans ht)
    rw [hpoint] at hreturned
    cases hreturned

end Http

end Sylar
