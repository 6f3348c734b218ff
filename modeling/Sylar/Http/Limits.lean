import Sylar.Http.Calls

/-!
# The limits of a message

The configuration has limits for the header of a message and for its body. No call looks at the
limit of the body. That of the header is the size of the buffer, and is compared with what the
parser leaves in the buffer, not with what it has taken.

A string is made as long as the announced length says, whether its bytes come or not; memory does
not run out.

## Main definitions

* `Within`: the limits hold in a state of a call
* `Accepted`: the parser has finished, and the call goes on
* `Moderate`: what is announced, and the header of a message that is complete, keep the limits

## Main results

* `within_step_iff`: a step keeps the limits exactly if it is moderate
* `limits_kept_iff`: so do the calls, along all the reads
-/

namespace Sylar

open Foundation

namespace Http

variable {σ : Type} {p : MessageParser σ} {buff_size max_body_size : ℕ} {s t : Call σ}

/-- **The limits hold**: the string of the body is no longer than its limit, and the header of a
message that is returned no longer than its own. -/
structure Within (buff_size max_body_size : ℕ) (s : Call σ) : Prop where
  body : s.body.length ≤ max_body_size
  header : s.point = .returned → s.header ≤ buff_size

/-- The parser has finished, and neither an error nor a full buffer ends the call. -/
def Accepted (p : MessageParser σ) (buff_size : ℕ) (parser : σ) (data : List UInt8) : Prop :=
  p.hasError parser = false ∧ (data.length : Int) ≠ toInt buff_size ∧ p.isFinished parser = true

instance (p : MessageParser σ) (buff_size : ℕ) (parser : σ) (data : List UInt8) :
    Decidable (Accepted p buff_size parser data) := by
  unfold Accepted
  infer_instance

/-- **A moderate read**: a header that ends announces no more than the limit of the body, what is
taken of a chunk does not make the body longer than that, and with the last bytes of a message its
header, with the bytes of all its reads, is no longer than the buffer. -/
def Moderate (p : MessageParser σ) (buff_size max_body_size : ℕ) (s : Call σ) : ReadResult → Prop
  | .failed => True
  | .got d =>
    d ≠ [] →
      match s.point with
      | .header =>
        ∀ r ∈ p.execute s.parser (s.data ++ d), Accepted p buff_size r.1 r.2.2 →
          p.chunked r.1 = false →
            toInt64 (p.getContentLength r.1) ≤ max_body_size ∧
              (toInt64 (p.getContentLength r.1) ≤ r.2.2.length → s.header + r.2.1 ≤ buff_size)
      | .chunk =>
        ∀ r ∈ p.executeChunk s.parser (s.data ++ d), Accepted p buff_size r.1 r.2.2 →
          s.body.length + min (p.content_len r.1) (r.2.2.length - 2) ≤ max_body_size ∧
            (p.content_len r.1 ≤ r.2.2.length - 2 → p.chunks_done r.1 = true →
              s.header ≤ buff_size)
      | .data left =>
        s.body.length + d.length ≤ max_body_size ∧
          (left ≤ d.length → p.chunks_done s.parser = true → s.header ≤ buff_size)
      | .body length left => left ≤ d.length → 0 < toInt length → s.header ≤ buff_size
      | .closed | .returned => True

/-! ## One step -/

/-- Away from its end a call only has to keep the limit of the body. -/
theorem within_of_point (h : s.point ≠ .returned) :
    Within buff_size max_body_size s ↔ s.body.length ≤ max_body_size :=
  ⟨Within.body, fun hbody => ⟨hbody, fun hpoint => absurd hpoint h⟩⟩

theorem within_close : Within buff_size max_body_size s.close ↔ s.body.length ≤ max_body_size :=
  within_of_point (by rintro ⟨⟩)

theorem within_finish : Within buff_size max_body_size s.finish ↔
    s.body.length ≤ max_body_size ∧ s.header ≤ buff_size :=
  ⟨fun h => ⟨h.body, h.header rfl⟩, fun h => ⟨h.1, fun _ => h.2⟩⟩

theorem within_nextChunk : Within buff_size max_body_size (s.nextChunk p) ↔
    s.body.length ≤ max_body_size ∧ (p.chunks_done s.parser = true → s.header ≤ buff_size) := by
  unfold Call.nextChunk
  split_ifs with hdone
  · rw [within_finish]
    exact and_congr_right fun _ => ⟨fun h _ => h, fun h => h hdone⟩
  · rw [within_of_point (by rintro ⟨⟩)]
    exact ⟨fun h => ⟨h, fun h' => absurd h' hdone⟩, fun h => h.1⟩

theorem within_finishBody {length : ℕ} : Within buff_size max_body_size (s.finishBody length) ↔
    s.body.length ≤ max_body_size ∧ (0 < toInt length → s.header ≤ buff_size) := by
  unfold Call.finishBody
  split_ifs with hle
  · rw [within_close]
    exact ⟨fun h => ⟨h, fun h' => absurd h' (Int.not_lt.mpr hle)⟩, fun h => h.1⟩
  · rw [within_finish]
    exact and_congr_right fun _ => ⟨fun h _ => h, fun h => h (Int.not_le.mp hle)⟩

theorem length_storeAt {body body' d : List UInt8} {offset : ℕ}
    (h : storeAt body offset d = some body') : body'.length = body.length := by
  unfold storeAt at h
  split_ifs at h with hfit
  obtain rfl := Option.some.inj h
  exact length_splice hfit

theorem exists_storeAt {body d : List UInt8} {offset : ℕ} (h : offset + d.length ≤ body.length) :
    ∃ body', storeAt body offset d = some body' ∧ body'.length = body.length := by
  have hstore : storeAt body offset d = some (splice body offset d) := if_pos h
  exact ⟨_, hstore, length_storeAt hstore⟩

/-- The string is made as long as announced, whatever the buffer has of it. -/
theorem exists_startBody {length : Int} (hpos : 0 < length) :
    ∃ body, body.length = length.toNat ∧ s.startBody length =
      some (if 0 < length - s.data.length then
          { s with
            body := body
            point := .body (length - s.data.length).toNat (length - s.data.length).toNat }
        else { s with body := body, point := .returned }) := by
  unfold Call.startBody
  rw [if_pos hpos]
  -- what is copied of the buffer fits into the string
  have hfits : 0 + (s.data.take
      (if s.data.length ≤ length then s.data.length else length.toNat)).length ≤
        (List.replicate length.toNat (0 : UInt8)).length := by
    rw [List.length_take, List.length_replicate]
    split_ifs with hle
    · omega
    · omega
  obtain ⟨body, hstore, hlen⟩ := exists_storeAt hfits
  refine ⟨body, hlen.trans (List.length_replicate ..), ?_⟩
  simp only [hstore, Option.map_some]

theorem length_startBody {length : Int} (hpos : 0 < length) :
    ∃ t, s.startBody length = some t ∧ t.body.length = length.toNat := by
  obtain ⟨body, hlen, hstart⟩ := exists_startBody (s := s) hpos
  refine ⟨_, hstart, ?_⟩
  split_ifs
  · exact hlen
  · exact hlen

/-- The body of an announced length. -/
theorem within_startBody {length : Int} (hbody : s.body.length ≤ max_body_size)
    (h : s.startBody length = some t) : Within buff_size max_body_size t ↔
      length ≤ max_body_size ∧ (length ≤ s.data.length → s.header ≤ buff_size) := by
  by_cases hpos : 0 < length
  · obtain ⟨body, hlen, heq⟩ := exists_startBody (s := s) hpos
    obtain rfl := Option.some.inj (heq.symm.trans h)
    split_ifs with hleft
    · rw [within_of_point (by rintro ⟨⟩)]
      simp only [hlen]
      omega
    · constructor
      · intro hwithin
        have hmax := hwithin.body
        simp only [hlen] at hmax
        exact ⟨by omega, fun _ => hwithin.header rfl⟩
      · rintro ⟨hmax, hheader⟩
        refine ⟨?_, fun _ => hheader (by omega)⟩
        simp only [hlen]
        omega
  · unfold Call.startBody at h
    rw [if_neg hpos] at h
    obtain rfl := Option.some.inj h
    rw [within_finish]
    exact ⟨fun hwithin => ⟨by omega, fun _ => hwithin.2⟩,
      fun hwithin => ⟨hbody, hwithin.2 (by omega)⟩⟩

/-- A chunk: what is taken of it from the buffer. -/
theorem within_startChunk (h : s.startChunk p = some t) :
    Within buff_size max_body_size t ↔
      s.body.length + min (p.content_len s.parser) (s.data.length - 2) ≤ max_body_size ∧
        (p.content_len s.parser ≤ s.data.length - 2 → p.chunks_done s.parser = true →
          s.header ≤ buff_size) := by
  unfold Call.startChunk at h
  simp only at h
  split_ifs at h with hle hneg hlen hleft
  · obtain rfl := Option.some.inj h
    rw [within_nextChunk, List.length_append, List.length_take]
    refine and_congr ?_ ⟨fun h _ => h, fun h => h hle⟩
    omega
  · obtain rfl := Option.some.inj h
    rw [within_of_point (by rintro ⟨⟩), List.length_append, List.length_take]
    refine ⟨fun hmax => ⟨?_, fun h' => absurd h' hle⟩, fun h => ?_⟩
    · omega
    · have hmax := h.1
      omega
  · omega

/-- The end of a header. -/
theorem within_behindHeader (hbody : s.body.length ≤ max_body_size)
    (h : s.behindHeader p = some t) : Within buff_size max_body_size t ↔
      (p.chunked s.parser = false →
        toInt64 (p.getContentLength s.parser) ≤ max_body_size ∧
          (toInt64 (p.getContentLength s.parser) ≤ s.data.length → s.header ≤ buff_size)) := by
  unfold Call.behindHeader at h
  split_ifs at h with hchunked
  · obtain rfl := Option.some.inj h
    refine iff_of_true ((within_of_point (by rintro ⟨⟩)).mpr hbody) fun hnot => ?_
    rw [hnot] at hchunked
    cases hchunked
  · rw [within_startBody hbody h]
    exact (imp_iff_right (by simpa using hchunked)).symm

/-- What follows the parser matters if the call goes on. -/
theorem within_parsed {next : Call σ → Option (Call σ)} {C : Prop}
    (hbody : s.body.length ≤ max_body_size) (hpoint : s.point ≠ .returned)
    (hnext : next s = some t → (Within buff_size max_body_size t ↔ C))
    (h : s.parsed p buff_size next = some t) :
    Within buff_size max_body_size t ↔ (Accepted p buff_size s.parser s.data → C) := by
  unfold Call.parsed at h
  split_ifs at h with herror hfull hfinished
  · obtain rfl := Option.some.inj h
    refine iff_of_true (within_close.mpr hbody) fun haccepted => ?_
    rw [haccepted.1] at herror
    cases herror
  · obtain rfl := Option.some.inj h
    exact iff_of_true (within_close.mpr hbody) fun haccepted => absurd hfull haccepted.2.1
  · rw [hnext h]
    have haccepted : Accepted p buff_size s.parser s.data :=
      ⟨by simpa using herror, hfull, hfinished⟩
    exact ⟨fun hC _ => hC, fun hC => hC haccepted⟩
  · obtain rfl := Option.some.inj h
    refine iff_of_true ((within_of_point hpoint).mpr hbody) fun haccepted => ?_
    exact absurd haccepted.2.2 hfinished

/-- A read that gives no bytes. -/
theorem within_receive_nil (hs : Within buff_size max_body_size s)
    (h : s.receive p buff_size [] = some t) : Within buff_size max_body_size t := by
  unfold Call.receive at h
  split at h
  · obtain rfl := Option.some.inj h
    exact within_close.mpr hs.body
  · obtain rfl := Option.some.inj h
    exact within_close.mpr hs.body
  · obtain rfl := Option.some.inj h
    exact within_close.mpr hs.body
  · obtain rfl := Option.some.inj h
    exact hs
  · cases h
  · cases h

/-- **A read that gives bytes** keeps the limits exactly if it is moderate. -/
theorem within_receive_iff {d : List UInt8} (hs : Within buff_size max_body_size s) (hd : d ≠ [])
    (h : s.receive p buff_size d = some t) :
    Within buff_size max_body_size t ↔ Moderate p buff_size max_body_size s (.got d) := by
  have hgot : ∀ {C : Prop}, (d ≠ [] → C) ↔ C := imp_iff_right hd
  unfold Call.receive at h
  cases hpoint : s.point with
  | header =>
    simp only [hpoint, if_neg hd, Moderate, hgot] at h ⊢
    obtain ⟨r, hexec, hparsed⟩ := Option.bind_eq_some_iff.mp h
    -- the state behind the parser is known from the second argument
    refine (within_parsed ?_ ?_ (within_behindHeader (by exact hs.body)) hparsed).trans ?_
    · exact hs.body
    · rintro ⟨⟩
    · rw [hexec]
      simp
  | chunk =>
    simp only [hpoint, if_neg hd, Moderate, hgot] at h ⊢
    obtain ⟨r, hexec, hparsed⟩ := Option.bind_eq_some_iff.mp h
    refine (within_parsed ?_ ?_ within_startChunk hparsed).trans ?_
    · exact hs.body
    · rintro ⟨⟩
    · rw [hexec]
      simp
  -- the body grows by what was read, and is finished when nothing is left of the last chunk
  | data left =>
    simp only [hpoint, if_neg hd, Moderate, hgot, Option.some.injEq] at h ⊢
    split_ifs at h with hleft
    · obtain rfl := h
      rw [within_of_point (by rintro ⟨⟩), List.length_append]
      exact ⟨fun hmax => ⟨hmax, fun hle => by omega⟩, fun h => h.1⟩
    · obtain rfl := h
      rw [within_nextChunk, List.length_append]
      exact and_congr_right fun _ => ⟨fun h _ => h, fun h => h (by omega)⟩
  -- the string has its final size from the start
  | body length left =>
    simp only [hpoint, if_neg hd, Moderate, hgot] at h ⊢
    rw [Option.ite_none_right_eq_some] at h
    obtain ⟨body, hstore, heq⟩ := Option.map_eq_some_iff.mp h.2
    have hbody : body.length ≤ max_body_size := by
      rw [length_storeAt hstore]
      exact hs.body
    split_ifs at heq with hleft
    · obtain rfl := heq
      exact iff_of_true ((within_of_point (by rintro ⟨⟩)).mpr hbody) fun hall => by omega
    · obtain rfl := heq
      rw [within_finishBody]
      exact ⟨fun hwithin _ => hwithin.2, fun hheader => ⟨hbody, hheader (by omega)⟩⟩
  | closed => simp [hpoint] at h
  | returned => simp [hpoint] at h

/-- **One step** keeps the limits exactly if its read is moderate. -/
theorem within_step_iff {a : ReadResult} (hs : Within buff_size max_body_size s)
    (hstep : s.step p buff_size a = some t) :
    Within buff_size max_body_size t ↔ Moderate p buff_size max_body_size s a := by
  cases a with
  | got d =>
    rw [Call.step, Option.ite_none_right_eq_some] at hstep
    by_cases hd : d = []
    · subst hd
      exact iff_of_true (within_receive_nil hs hstep.2) fun hne => absurd rfl hne
    · exact within_receive_iff hs hd hstep.2
  | failed =>
    refine iff_of_true ?_ trivial
    rw [Call.step, Call.fail] at hstep
    cases hpoint : s.point with
    | header | chunk | data left =>
      simp only [hpoint] at hstep
      obtain rfl := Option.some.inj hstep
      exact within_close.mpr hs.body
    | body length left =>
      simp only [hpoint] at hstep
      obtain rfl := Option.some.inj hstep
      exact (within_of_point (by rintro ⟨⟩)).mpr hs.body
    | closed | returned => simp [hpoint] at hstep

/-- A read that ends the header. -/
theorem receive_header {d : List UInt8} {r : σ × ℕ × List UInt8} (hpoint : s.point = .header)
    (hd : d ≠ []) (hexec : p.execute s.parser (s.data ++ d) = some r)
    (haccepted : Accepted p buff_size r.1 r.2.2) :
    s.receive p buff_size d =
      Call.behindHeader p
        { s with parser := r.1, data := r.2.2, header := s.header + r.2.1 } := by
  obtain ⟨herror, hfull, hfinished⟩ := haccepted
  unfold Call.receive
  simp only [hpoint]
  rw [if_neg hd, hexec, Option.bind_some, Call.parsed, if_neg (Bool.not_eq_true _ ▸ herror),
    if_neg hfull, if_pos hfinished]

/-- A header is enough for the string. -/
theorem exists_run_header {parser : σ} {d : List UInt8} {r : σ × ℕ × List UInt8}
    (hlen : d.length ≤ buff_size) (hint : d.length < 2 ^ 31) (hd : d ≠ [])
    (hexec : p.execute parser d = some r) (haccepted : Accepted p buff_size r.1 r.2.2)
    (hchunked : p.chunked r.1 = false) (hpos : 0 < toInt64 (p.getContentLength r.1)) :
    ∃ t, (Call.machine p buff_size).run (.start parser) [.got d] = some t ∧
      t.body.length = (toInt64 (p.getContentLength r.1)).toNat := by
  have hreceive := receive_header (s := .start parser) rfl hd hexec haccepted
  rw [Call.behindHeader, if_neg (Bool.not_eq_true _ ▸ hchunked)] at hreceive
  obtain ⟨t, hstart, hbody⟩ := length_startBody hpos
  rw [hstart] at hreceive
  have hstep : (Call.machine p buff_size).step (.start parser) (.got d) =
      (Call.start parser).receive p buff_size d :=
    if_pos ⟨hlen, hint⟩
  refine ⟨t, ?_, hbody⟩
  rw [Machine.run_cons, hstep, hreceive, Option.bind_some, Machine.run_nil]

/-! ## Calls -/

theorem within_start (parser : σ) : Within buff_size max_body_size (Call.start parser) where
  body := Nat.zero_le _
  header := by rintro ⟨⟩

/-- Along the reads of a call of either machine. -/
theorem within_iff {parser : σ} {reads : List ReadResult}
    (hrun : (Call.machine p buff_size).run (.start parser) reads = some t) :
    (Call.machine p buff_size).Keeps (Within buff_size max_body_size) (.start parser) reads ↔
      (Call.machine p buff_size).Meets (Moderate p buff_size max_body_size) (.start parser) reads :=
  Machine.keeps_iff_meets (I := fun _ => True) (fun _ _ _ _ _ => trivial)
    (fun _ _ _ _ hs hstep => within_step_iff hs hstep) trivial (within_start parser) hrun

variable {lexicalCast : List UInt8 → Option UInt64} {limits : Limits}

/-- **The limits of the configuration** hold along all the reads of a call, of `recvRequest` and of
`recvResponse`, exactly if every read is moderate. -/
theorem limits_kept_iff (lexicalCast : List UInt8 → Option UInt64) (limits : Limits)
    (reads : List ReadResult) :
    (∀ memory t, (requestCall lexicalCast limits).run (.start (.new memory)) reads = some t →
      ((requestCall lexicalCast limits).Keeps
          (Within limits.http_request_buffer_size.toNat limits.http_request_max_body_size.toNat)
          (.start (.new memory)) reads ↔
        (requestCall lexicalCast limits).Meets
          (Moderate (requestParser lexicalCast) limits.http_request_buffer_size.toNat
            limits.http_request_max_body_size.toNat)
          (.start (.new memory)) reads)) ∧
    ∀ memory t, (responseCall lexicalCast limits).run (.start (.new memory)) reads = some t →
      ((responseCall lexicalCast limits).Keeps
          (Within limits.http_response_buffer_size.toNat limits.http_response_max_body_size.toNat)
          (.start (.new memory)) reads ↔
        (responseCall lexicalCast limits).Meets
          (Moderate (responseParser lexicalCast) limits.http_response_buffer_size.toNat
            limits.http_response_max_body_size.toNat)
          (.start (.new memory)) reads) :=
  ⟨fun _ _ hrun => within_iff hrun, fun _ _ hrun => within_iff hrun⟩

def HttpclientParser.zero : HttpclientParser := ⟨0, 0, 0, 0, false, false, false, 0, 0, 0, 0⟩

/-- A request whose body comes in two reads. -/
def postReads : List ReadResult :=
  [.got (bytes "POST / HTTP/1.1\r\nContent-Length: 2\r\n\r\n"), .got (bytes "o"),
    .got (bytes "k")]

/-- The start of a response in chunks, with its first chunk. -/
def chunkReads : List ReadResult :=
  [.got (bytes "HTTP/1.1 200 OK\r\nTransfer-Encoding: chunked\r\n\r\n"),
    .got (bytes "2\r\nok\r\n")]

theorem limits_kept_iff_reads :
    (∃ t, (requestCall decimal {}).run (.start (.new .zero)) postReads = some t ∧
      ((requestCall decimal {}).Keeps (Within 4096 67108864) (.start (.new .zero)) postReads ↔
        (requestCall decimal {}).Meets (Moderate (requestParser decimal) 4096 67108864)
          (.start (.new .zero)) postReads)) ∧
    ∃ t, (responseCall decimal {}).run (.start (.new .zero)) chunkReads = some t ∧
      ((responseCall decimal {}).Keeps (Within 4096 67108864) (.start (.new .zero)) chunkReads ↔
        (responseCall decimal {}).Meets (Moderate (responseParser decimal) 4096 67108864)
          (.start (.new .zero)) chunkReads) := by
  constructor
  · have hsome : ((requestCall decimal {}).run (.start (.new .zero)) postReads).isSome = true := by
      decide
    obtain ⟨t, hrun⟩ := Option.isSome_iff_exists.mp hsome
    exact ⟨t, hrun, (limits_kept_iff decimal {} postReads).1 .zero t hrun⟩
  · have hsome :
        ((responseCall decimal {}).run (.start (.new .zero)) chunkReads).isSome = true := by
      decide
    obtain ⟨t, hrun⟩ := Option.isSome_iff_exists.mp hsome
    exact ⟨t, hrun, (limits_kept_iff decimal {} chunkReads).2 .zero t hrun⟩

/-- A header that announces one byte more than a body may have. -/
def hugeHeader : List UInt8 := bytes "POST / HTTP/1.1\r\nContent-Length: 67108865\r\n\r\n"

/-- A header of 24 bytes, for a buffer of 16. -/
def longReads : List ReadResult :=
  [.got (bytes "GET / HTTP/1.1\r\n"), .got (bytes "A: b\r\n"), .got (bytes "\r\n")]

/-- A string of more than 64 MiB is made with the header alone, and a header that comes in parts
is longer than the buffer. -/
theorem limits_exceeded :
    (∃ t, (requestCall decimal {}).run (.start (.new .zero)) [.got hugeHeader] = some t ∧
      64 * 1024 * 1024 < t.body.length ∧
      ¬ (requestCall decimal {}).Keeps (Within 4096 67108864) (.start (.new .zero))
        [.got hugeHeader]) ∧
    ∃ t, (requestCall decimal { http_request_buffer_size := 16 }).run (.start (.new .zero))
        longReads = some t ∧
      t.point = .returned ∧ 16 < t.header := by
  constructor
  · have hexec : ∃ r ∈ (requestParser decimal).execute (.new .zero) hugeHeader,
        Accepted (requestParser decimal) 4096 r.1 r.2.2 ∧
          toInt64 ((requestParser decimal).getContentLength r.1) = 67108865 := by
      decide
    obtain ⟨r, hr, haccepted, hlength⟩ := hexec
    obtain ⟨t, hrun, hbody⟩ :=
      exists_run_header (by decide) (by decide) (by decide) hr haccepted rfl
        (by rw [hlength]; decide)
    rw [hlength] at hbody
    have hlong : 64 * 1024 * 1024 < t.body.length := by
      rw [hbody]
      decide
    exact ⟨t, hrun, hlong, fun hkeeps => Nat.not_le.mpr hlong (hkeeps.last hrun).body⟩
  · have hfinal : ∃ t ∈ (requestCall decimal { http_request_buffer_size := 16 }).run
        (.start (.new .zero)) longReads, t.point = .returned ∧ 16 < t.header := by
      decide
    exact hfinal

end Http

end Sylar
