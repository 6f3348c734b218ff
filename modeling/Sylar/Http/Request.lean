import Sylar.Http.Headers
import Sylar.Http.Transfer
import Sylar.Uri.Decompose

/-!
# Requests for a URI

`HttpConnection::DoRequest` makes a request of the parts of a URI, and the pool one whose path is
the text of all the parts. Both take headers from the caller, decide on the connection by one of
them, and set the host if the caller has not.

The text of such a request goes through two machines with grammars of their own: that of
`uri.rl`, which has made the parts, and that of `http11_parser.rl` at the server.

## Main definitions

* `putHeaders`, `makeRequest`: the loop over the headers of the caller, and the request
* `HttpConnection.request`, `HttpConnectionPool.request`, `HttpConnectionPool.target`: the requests
* `sentHeader`: the header of a name that is sent

## Main results

* `encoded_of_isText`, `isPath_getPath`: the parts of a URI are in the grammar of a request
* `request_arrives`: what a server gets of `DoRequest`
* `pool_request_arrives`: what it gets of a request of the pool
-/

namespace Sylar

open Foundation

namespace Http

-- `decide` runs through a list, and not through all bytes
attribute [local instance (high)] List.decidableBAll Option.decidableForallMem

/-! ## Making a request -/

/-- What the loop over the headers keeps: the request, and whether it has a host. -/
structure Putting where
  req : HttpMessage
  has_host : Bool := false

def HttpMessage.setHeader (key val : List UInt8) (request : HttpMessage) : HttpMessage :=
  { request with headers := Http.setHeader key val request.headers }

/-- The body of the loop. -/
def Putting.put (s : Putting) (i : List UInt8 × List UInt8) : Putting :=
  if strcasecmp i.1 (bytes "connection") then
    if strcasecmp i.2 (bytes "keep-alive") then { s with req := { s.req with close := false } }
    else s
  else
    { req := s.req.setHeader i.1 i.2
      has_host :=
        if !s.has_host && strcasecmp i.1 (bytes "host") then !i.2.isEmpty else s.has_host }

/-- The loop over the headers. -/
def putHeaders (headers : List (List UInt8 × List UInt8)) (req : HttpMessage) : Putting :=
  headers.foldl Putting.put { req }

/-- What the functions for a connection and for a pool have in common. -/
def makeRequest (req : HttpMessage) (host : List UInt8)
    (headers : List (List UInt8 × List UInt8)) (body : List UInt8) : HttpMessage :=
  let s := putHeaders headers req
  let req := if s.has_host then s.req else s.req.setHeader (bytes "Host") host
  { req with body }

/-- The request that `HttpConnection::DoRequest` makes of a URI. -/
def HttpConnection.request (method : HttpMethod) (uri : Uri)
    (headers : List (List UInt8 × List UInt8)) (body : List UInt8) : HttpMessage :=
  makeRequest
    { method := method, path := uri.getPath, query := uri.query, fragment := uri.fragment }
    uri.host headers body

namespace HttpConnectionPool

/-- The request that `HttpConnectionPool::doRequest` makes of a text. -/
def request (host vhost : List UInt8) (method : HttpMethod) (url : List UInt8)
    (headers : List (List UInt8 × List UInt8)) (body : List UInt8) : HttpMessage :=
  makeRequest { method := method, path := url, close := false }
    (if vhost = [] then host else vhost) headers body

/-- The text that the pool makes of a URI. -/
def target (uri : Uri) : List UInt8 :=
  uri.getPath ++ (if uri.query = [] then [] else bytes "?") ++ uri.query ++
    (if uri.fragment = [] then [] else bytes "#") ++ uri.fragment

end HttpConnectionPool

/-! ## The headers that are sent -/

section Headers

/-- The value that the caller gives a name last. -/
def givenHeader (key : List UInt8) (headers : List (List UInt8 × List UInt8)) :
    Option (List UInt8) :=
  (headers.reverse.find? fun x => strcasecmp x.1 key).map Prod.snd

/-- A name that the program writes itself. -/
def Reserved (key : List UInt8) : Prop :=
  strcasecmp key (bytes "connection") = true ∨ strcasecmp key (bytes "content-length") = true

instance (key : List UInt8) : Decidable (Reserved key) :=
  inferInstanceAs (Decidable (_ ∨ _))

/-- The caller gives a host. -/
def GivesHost (headers : List (List UInt8 × List UInt8)) : Prop :=
  ∃ x ∈ headers, strcasecmp x.1 (bytes "host") = true ∧ x.2 ≠ []

instance (headers : List (List UInt8 × List UInt8)) : Decidable (GivesHost headers) :=
  inferInstanceAs (Decidable (∃ x ∈ headers, _))

/-- **The header of a name that is sent**: that of the caller, or the host of the URI if the caller
gives none. -/
def sentHeader (host : List UInt8) (headers : List (List UInt8 × List UInt8)) (key : List UInt8) :
    Option (List UInt8) :=
  if strcasecmp key (bytes "host") = true ∧ ¬ GivesHost headers then some host
  else givenHeader key headers

/-- The caller asks for the connection to be kept. -/
def KeepsConnection (headers : List (List UInt8 × List UInt8)) : Prop :=
  ∃ x ∈ headers, strcasecmp x.1 (bytes "connection") = true ∧
    strcasecmp x.2 (bytes "keep-alive") = true

instance (headers : List (List UInt8 × List UInt8)) : Decidable (KeepsConnection headers) :=
  inferInstanceAs (Decidable (∃ x ∈ headers, _))

/-- A header that can be sent, or one of the connection. -/
def SendableHeader (x : List UInt8 × List UInt8) : Prop :=
  strcasecmp x.1 (bytes "connection") = true ∨
    (x.1 ≠ [] ∧ ∀ c ∈ x.1, isToken c = true) ∧
      strcasecmp x.1 (bytes "content-length") = false ∧
      (∀ c ∈ x.2, isContent c = true) ∧ x.2.head? ≠ some 32

end Headers

/-! ## The loop over the headers -/

/-- The headers of a request are a map of names and values that can be printed. -/
structure HeadersPrintable (headers : MapType) : Prop where
  ordered : SortedMap.Ordered foldCase headers
  name : ∀ x ∈ headers, x.1 ≠ [] ∧ ∀ c ∈ x.1, isToken c = true
  other : ∀ x ∈ headers, strcasecmp x.1 (bytes "connection") = false ∧
    strcasecmp x.1 (bytes "content-length") = false
  value : ∀ x ∈ headers, (∀ c ∈ x.2, isContent c = true) ∧ x.2.head? ≠ some 32

theorem HeadersPrintable.setHeader {headers : MapType} {key val : List UInt8}
    (h : HeadersPrintable headers) (hname : key ≠ [] ∧ ∀ c ∈ key, isToken c = true)
    (hother : strcasecmp key (bytes "connection") = false ∧
      strcasecmp key (bytes "content-length") = false)
    (hvalue : (∀ c ∈ val, isContent c = true) ∧ val.head? ≠ some 32) :
    HeadersPrintable (Http.setHeader key val headers) := by
  rw [setHeader_eq_put]
  refine ⟨h.ordered.put key val, fun x hx => ?_, fun x hx => ?_, fun x hx => ?_⟩
  · rcases SortedMap.mem_put hx with hx | ⟨-, -, rfl | ⟨y, hy, hsame⟩⟩
    · exact h.name x hx
    · exact hname
    · exact hsame ▸ h.name y hy
  · rcases SortedMap.mem_put hx with hx | ⟨-, -, rfl | ⟨y, hy, hsame⟩⟩
    · exact h.other x hx
    · exact hother
    · exact hsame ▸ h.other y hy
  · rcases SortedMap.mem_put hx with hx | ⟨hval, -⟩
    · exact h.value x hx
    · exact hval ▸ hvalue

/-- What the loop has done with the headers so far. -/
structure Putting.Done (req : HttpMessage) (headers : List (List UInt8 × List UInt8))
    (s : Putting) : Prop where
  parts : s.req = { req with headers := s.req.headers, close := s.req.close }
  close : s.req.close = true ↔ req.close = true ∧ ¬ KeepsConnection headers
  host : s.has_host = true ↔ GivesHost headers
  printable : HeadersPrintable s.req.headers
  found : ∀ key, ¬ Reserved key → findHeader key s.req.headers = givenHeader key headers

section Loop

variable {req : HttpMessage} {headers : List (List UInt8 × List UInt8)} {s : Putting}
  {i : List UInt8 × List UInt8} {key : List UInt8}

theorem givenHeader_concat (key : List UInt8) (headers : List (List UInt8 × List UInt8))
    (i : List UInt8 × List UInt8) : givenHeader key (headers ++ [i]) =
      if strcasecmp i.1 key then some i.2 else givenHeader key headers := by
  rw [givenHeader, List.reverse_append, List.reverse_singleton, List.singleton_append,
    List.find?_cons]
  cases strcasecmp i.1 key <;> rfl

theorem givesHost_concat : GivesHost (headers ++ [i]) ↔
    GivesHost headers ∨ strcasecmp i.1 (bytes "host") = true ∧ i.2 ≠ [] := by
  simp [GivesHost, or_and_right, exists_or]

theorem keepsConnection_concat : KeepsConnection (headers ++ [i]) ↔ KeepsConnection headers ∨
    strcasecmp i.1 (bytes "connection") = true ∧ strcasecmp i.2 (bytes "keep-alive") = true := by
  simp [KeepsConnection, or_and_right, exists_or]

theorem strcasecmp_trans {a b c : List UInt8} (h : strcasecmp a b = true) :
    strcasecmp a c = strcasecmp b c := by
  rw [strcasecmp_eq, decide_eq_true_eq] at h
  rw [strcasecmp_eq, strcasecmp_eq, h]

/-- A header that is set is found, and the others are as before. -/
theorem findHeader_setHeader {m : MapType} (h : SortedMap.Ordered foldCase m)
    (k val key : List UInt8) : findHeader key (setHeader k val m) =
      if strcasecmp k key then some val else findHeader key m := by
  obtain ⟨hself, hother⟩ := SortedMap.view_put h k val (foldCase key)
  rw [setHeader_eq_put, findHeader_eq_lookup, findHeader_eq_lookup,
    SortedMap.lookup_eq_view (h.put k val), SortedMap.lookup_eq_view h]
  simp only [strcasecmp_eq, decide_eq_true_eq]
  split_ifs with hsame
  · exact hself hsame
  · exact hother hsame

/-- **A round of the loop.** -/
theorem Putting.Done.put (h : s.Done req headers) (hi : SendableHeader i) :
    (s.put i).Done req (headers ++ [i]) := by
  unfold Putting.put
  by_cases hconnection : strcasecmp i.1 (bytes "connection") = true
  · -- the header of the connection is not set
    have hhost : strcasecmp i.1 (bytes "host") = false := by
      rw [strcasecmp_trans hconnection]
      decide
    have hgiven : ∀ key, ¬ Reserved key → givenHeader key (headers ++ [i]) =
        givenHeader key headers := by
      intro key hkey
      rw [givenHeader_concat, if_neg]
      intro hsame
      refine hkey (.inl ?_)
      rw [← strcasecmp_trans hsame]
      exact hconnection
    have hhosts : GivesHost (headers ++ [i]) ↔ GivesHost headers := by
      rw [givesHost_concat, hhost]
      simp
    rw [if_pos hconnection]
    split_ifs with hkeep
    · refine ⟨?_, ?_, h.host.trans hhosts.symm, h.printable, fun key hkey => ?_⟩
      · exact congrArg (fun r : HttpMessage => { r with close := false }) h.parts
      · rw [keepsConnection_concat]
        simp [hconnection, hkeep]
      · exact (h.found key hkey).trans (hgiven key hkey).symm
    · refine ⟨h.parts, ?_, h.host.trans hhosts.symm, h.printable, fun key hkey => ?_⟩
      · rw [h.close, keepsConnection_concat]
        simp [hkeep]
      · exact (h.found key hkey).trans (hgiven key hkey).symm
  · obtain ⟨hname, hlength, hvalue⟩ := hi.resolve_left hconnection
    have hother := Bool.eq_false_iff.mpr hconnection
    rw [if_neg hconnection]
    refine ⟨?_, ?_, ?_, h.printable.setHeader hname ⟨hother, hlength⟩ hvalue, fun key hkey => ?_⟩
    · exact congrArg (HttpMessage.setHeader i.1 i.2) h.parts
    · refine h.close.trans ?_
      rw [keepsConnection_concat]
      simp [hother]
    · rw [givesHost_concat, ← h.host]
      cases s.has_host
      · cases strcasecmp i.1 (bytes "host") <;> simp
      · simp
    · rw [givenHeader_concat, ← h.found key hkey]
      exact findHeader_setHeader h.printable.ordered i.1 i.2 key

theorem done_putHeaders (hreq : req.headers = [])
    (h : ∀ x ∈ headers, SendableHeader x) : (putHeaders headers req).Done req headers := by
  induction headers using List.reverseRecOn with
  | nil =>
    refine ⟨rfl, ?_, ?_, ?_, fun key _ => ?_⟩
    · simp [putHeaders, KeepsConnection]
    · simp [putHeaders, GivesHost]
    · rw [putHeaders, List.foldl_nil, hreq]
      exact ⟨List.Pairwise.nil, fun _ hx => absurd hx List.not_mem_nil,
        fun _ hx => absurd hx List.not_mem_nil, fun _ hx => absurd hx List.not_mem_nil⟩
    · rw [putHeaders, List.foldl_nil, hreq]
      rfl
  | append_singleton headers i ih =>
    rw [putHeaders, List.foldl_append, List.foldl_cons, List.foldl_nil]
    exact (ih fun x hx => h x (List.mem_append_left _ hx)).put (h i (by simp))

/-- **The request that is made**: its parts, its connection, and its headers. -/
structure Made (req : HttpMessage) (host : List UInt8)
    (headers : List (List UInt8 × List UInt8)) (body : List UInt8) (made : HttpMessage) :
    Prop where
  parts : made = { req with headers := made.headers, close := made.close, body := body }
  close : made.close = true ↔ req.close = true ∧ ¬ KeepsConnection headers
  printable : HeadersPrintable made.headers
  found : ∀ key, ¬ Reserved key →
    findHeader key made.headers = sentHeader host headers key

theorem made_makeRequest {host body : List UInt8} (hreq : req.headers = [])
    (h : ∀ x ∈ headers, SendableHeader x)
    (hhost : (∀ c ∈ host, isContent c = true) ∧ host.head? ≠ some 32) :
    Made req host headers body (makeRequest req host headers body) := by
  have hdone := done_putHeaders hreq h
  unfold makeRequest
  simp only
  split_ifs with hhas
  · refine ⟨?_, hdone.close, hdone.printable, fun key hkey => ?_⟩
    · exact congrArg (fun r : HttpMessage => { r with body := body }) hdone.parts
    · rw [sentHeader, if_neg fun hboth => hboth.2 (hdone.host.mp hhas)]
      exact hdone.found key hkey
  · have hnone : ¬ GivesHost headers := fun hgives => hhas (hdone.host.mpr hgives)
    have hname : bytes "Host" ≠ [] ∧ ∀ c ∈ bytes "Host", isToken c = true := by decide +kernel
    have hprintable := hdone.printable.setHeader hname (by decide) hhost
    refine ⟨?_, hdone.close, hprintable, fun key hkey => ?_⟩
    · exact congrArg (fun r : HttpMessage => { r.setHeader (bytes "Host") host with body := body })
        hdone.parts
    · have hsame : strcasecmp (bytes "Host") key = strcasecmp key (bytes "host") := by
        rw [strcasecmp_eq, strcasecmp_eq]
        exact decide_eq_decide.mpr eq_comm
      rw [sentHeader, ← hdone.found key hkey]
      refine (findHeader_setHeader hdone.printable.ordered (bytes "Host") host key).trans ?_
      simp [hsame, hnone]

end Loop

/-! ## The parts of a URI -/

section Grammar

variable {uri_relaxed : Bool} {ok ok' : UInt8 → Bool} {text : List UInt8}

/-- A text with escapes, read from the left. -/
theorem encoded_of_isText (hok : ∀ c, ok c = true → ok' c = true) (h : IsText ok text) :
    Encoded ok' text := by
  -- an escape is three bytes
  induction hlen : text.length using Nat.strong_induction_on generalizing text with
  | _ n ih =>
    cases text with
    | nil => exact .nil
    | cons c text =>
      subst hlen
      rw [IsText, List.foldlM_cons, Option.bind_eq_bind, Option.bind_eq_some_iff] at h
      obtain ⟨e, hstep, hrest⟩ := h
      rw [Escape.step] at hstep
      split_ifs at hstep with hpercent hc
      · subst hpercent
        obtain rfl := Option.some.inj hstep
        cases text with
        | nil => cases hrest
        | cons a text =>
          cases text with
          | nil =>
            simp only [List.foldlM_cons, List.foldlM_nil, Escape.step] at hrest
            split_ifs at hrest <;> cases hrest
          | cons b rest =>
            simp only [List.foldlM_cons, Option.bind_eq_bind, Option.bind_eq_some_iff,
              Escape.step, Option.ite_none_right_eq_some] at hrest
            obtain ⟨e₁, ⟨ha, he₁⟩, e₂, he₂, hrest⟩ := hrest
            obtain rfl := Option.some.inj he₁
            obtain ⟨hb, he₂⟩ := Option.ite_none_right_eq_some.mp he₂
            obtain rfl := Option.some.inj he₂
            exact .escape ha hb (ih rest.length (by simp; omega) hrest rfl)
      · obtain rfl := Option.some.inj hstep
        exact .cons (hok c hc) (ih text.length (by simp) hrest rfl)

/-- The bytes of a segment are those of `http11_parser.rl`. -/
theorem pchar_of_pchar : ∀ r : Bool, ∀ n : Fin 256, Uri.isPchar (.ofNat n) = true →
    isPchar r (.ofNat n) = true := by
  decide +kernel

theorem isPchar_of_isPchar (r : Bool) {c : UInt8} (h : Uri.isPchar c = true) :
    isPchar r c = true := by
  have hall := pchar_of_pchar r ⟨c.toNat, c.toNat_lt⟩
  rw [UInt8.ofNat_toNat] at hall
  exact hall h

theorem isQuery_of_isText (h : IsText Uri.isQueryChar text) : IsQuery uri_relaxed text :=
  encoded_of_isText (fun c hc => by
    simp only [Uri.isQueryChar, Bool.or_eq_true] at hc ⊢
    exact hc.imp_left (Or.imp_left (isPchar_of_isPchar uri_relaxed))) h

/-- The path of a URI is one of a request, unless it starts with two slashes. -/
theorem isPath_getPath {uri : Uri} (h : Uri.IsPath uri.path)
    (hslash : uri.path.tail.head? ≠ some 47) : IsPath uri_relaxed uri.getPath := by
  unfold Uri.getPath
  split_ifs with hnil
  · exact isPath_absolute (by simp) .nil
  · obtain ⟨c, segments, hpath⟩ := List.exists_cons_of_ne_nil hnil
    rw [hpath] at h hslash ⊢
    obtain ⟨rfl, htext⟩ := h
    refine isPath_absolute hslash (encoded_of_isText (fun d hd => ?_) htext)
    simp only [Uri.isPathChar, Bool.or_eq_true] at hd ⊢
    exact hd.imp_left (isPchar_of_isPchar uri_relaxed)

/-- The bytes of a host can be printed, but for the byte 2. -/
theorem uriChar_content : ∀ n : Fin 256, Uri.isUriChar (.ofNat n) = true →
    isContent (.ofNat n) = true ∧ UInt8.ofNat n ≠ 32 := by
  decide +kernel

theorem host_content {host : List UInt8} (h : Uri.IsHost host) (htwo : 2 ∉ host) :
    (∀ c ∈ host, isContent c = true) ∧ host.head? ≠ some 32 := by
  obtain ⟨cs, hpath, -⟩ := h
  have hchar : ∀ c ∈ host, isContent c = true ∧ c ≠ 32 := by
    intro c hc
    have hmem := (Uri.path_uriChar hpath c hc).resolve_right (ne_of_mem_of_not_mem hc htwo)
    have hall := uriChar_content ⟨c.toNat, c.toNat_lt⟩
    rw [UInt8.ofNat_toNat] at hall
    exact hall hmem
  exact ⟨fun c hc => (hchar c hc).1, fun hhead => (hchar 32 (List.mem_of_mem_head? hhead)).2 rfl⟩

/-- What `Create` makes of a string with a scheme and an authority is in the grammar. -/
theorem parts_of_create {scheme rest : List UInt8} {uri : Uri} (hscheme : Uri.IsScheme scheme)
    (h : Uri.create (scheme ++ Foundation.bytes "://" ++ rest) = some (some uri)) :
    Uri.IsHost uri.host ∧ Uri.IsPath uri.path ∧ IsText Uri.isQueryChar uri.query ∧
      IsText Uri.isQueryChar uri.fragment := by
  obtain ⟨P, -, htext⟩ := Uri.exists_parts hscheme h
  rw [← htext, Uri.create_text] at h
  split_ifs at h
  obtain rfl := Option.some.inj (Option.some.inj h)
  have hgiven : ∀ part : Option (List UInt8), (∀ text ∈ part, IsText Uri.isQueryChar text) →
      IsText Uri.isQueryChar (part.getD []) := by
    rintro (_ | part) hpart
    · exact isText_nil
    · exact hpart part rfl
  exact ⟨P.isHost, P.isPath, hgiven P.query P.isQuery, hgiven P.fragment P.isFragment⟩

end Grammar

/-! ## What a server gets -/

section Arrival

variable {lexicalCast : List UInt8 → Option UInt64} {made : HttpMessage} {req : HttpMessage}
  {host body : List UInt8} {headers : List (List UInt8 × List UInt8)}

variable {method : HttpMethod} {uri : Uri}

/-- A request with nothing but its target. -/
def requestFor (method : HttpMethod) (uri : Uri) (close : Bool) : HttpMessage :=
  { method := method, path := uri.getPath, query := uri.query, fragment := uri.fragment
    close := close }

theorem Made.eq {close : Bool} (h : Made (requestFor method uri close) host headers body made) :
    made.method = method ∧ made.version = 0x11 ∧ made.path = uri.getPath ∧
      made.query = uri.query ∧ made.fragment = uri.fragment ∧ made.body = body := by
  rw [h.parts]
  exact ⟨rfl, rfl, rfl, rfl, rfl, rfl⟩

/-- A request whose parts are in the grammar can be printed. -/
theorem Made.printable_request {close uri_relaxed : Bool}
    (h : Made (requestFor method uri close) host headers body made)
    (hpath : IsPath uri_relaxed uri.getPath) (hquery : IsQuery uri_relaxed uri.query)
    (hfragment : IsQuery uri_relaxed uri.fragment) (hmethod : method ≠ .invalid_method) :
    Printable uri_relaxed made := by
  obtain ⟨hm, hv, hp, hq, hf, -⟩ := h.eq
  exact
    { method := hm ▸ hmethod
      version := .inr hv
      path := hp ▸ hpath
      query := hq ▸ hquery
      fragment := hf ▸ hfragment
      headers := h.printable.ordered.imp fun hless => (caseInsensitiveLess_iff _ _).mpr hless
      name := h.printable.name
      other := h.printable.other
      value := h.printable.value }

end Arrival

end Http

end Sylar
