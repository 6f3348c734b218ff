import Sylar.Http.Headers
import Sylar.Http.Replies
import Sylar.Http.Servlet
import Sylar.Http.Transfer

/-!
# The server

`handleClient` makes a response for each request, hands both to the servlet of the path, and sends
the response; it stops behind a request that closes the connection, or behind the first one if the
server keeps no connection.

A servlet is what it does with the response. Where all the servlets that are registered set what
can be printed, the response to a request that can be printed can be printed too, whatever has been
registered before and deleted since.

## Main definitions

* `Servlet`, `NotFoundServlet.handle`, `ServletDispatch.handle`: servlets
* `Servlet.Sound`: a servlet that sets only what can be printed
* `HttpServer`, `HttpServer.respond`, `HttpServer.stops`: the server, its response to a request, and
  whether it closes the connection behind it

## Main results

* `Servlet.Sound.dispatch`: the dispatcher is sound with sound servlets
* `printable_respond`: a sound server makes responses that can be printed
-/

namespace Sylar

open Foundation

namespace Http

-- `decide` runs through a list, and not through all bytes
attribute [local instance (high)] List.decidableBAll Option.decidableForallMem

/-! ## Setting the parts of a response -/

namespace HttpResponse

/-- The constructor of `HttpResponse`. -/
def new (version : UInt8) (close : Bool) : HttpResponse := { version, close }

def setStatus (status : UInt32) (response : HttpResponse) : HttpResponse :=
  { response with status }

def setHeader (key val : List UInt8) (response : HttpResponse) : HttpResponse :=
  { response with headers := Http.setHeader key val response.headers }

def setBody (body : List UInt8) (response : HttpResponse) : HttpResponse :=
  { response with body }

end HttpResponse

/-! ## Servlets -/

/-- `Servlet::handle`, as what it makes of a response. What it returns is not used. -/
abbrev Servlet := HttpMessage → HttpResponse → HttpResponse

namespace NotFoundServlet

def RSP_BODY : List UInt8 :=
  bytes "<html><head><title>404 Not Found" ++
    bytes "</title></head><body><center><h1>404 Not Found</h1></center>" ++
    bytes "<hr><center>custom-server/1.0.0</center></body></html>"

def handle : Servlet := fun _ response =>
  (((response.setStatus 404).setHeader (bytes "Server") (bytes "custom-server/1.0.0")).setHeader
    (bytes "Content-Type") (bytes "text/html")).setBody RSP_BODY

end NotFoundServlet

/-- `ServletDispatch::handle`. -/
def ServletDispatch.handle (fnmatch : List UInt8 → List UInt8 → Bool)
    (d : ServletDispatch Servlet) : Servlet := fun request response =>
  match d.getMatchedServlet fnmatch request.path with
  | some slt => slt request response
  | none => response

/-! ## The server -/

structure HttpServer where
  isKeepalive : Bool
  dispatch : ServletDispatch Servlet

namespace HttpServer

/-- The constructor of `HttpServer`. -/
def new (keepalive : Bool) : HttpServer where
  isKeepalive := keepalive
  dispatch := .new (some NotFoundServlet.handle)

/-- The response that `handleClient` sends. -/
def respond (fnmatch : List UInt8 → List UInt8 → Bool) (server : HttpServer)
    (request : HttpMessage) : HttpResponse :=
  server.dispatch.handle fnmatch request
    (.new request.version (request.close || !server.isKeepalive))

/-- `handleClient` leaves its loop behind the request. -/
def stops (server : HttpServer) (request : HttpMessage) : Bool :=
  !server.isKeepalive || request.close

end HttpServer

/-! ## Responses that can be printed -/

namespace HttpResponse

variable {response : HttpResponse} {key val : List UInt8}

@[simp] theorem body_setBody (body : List UInt8) (response : HttpResponse) :
    (response.setBody body).body = body := rfl

theorem printable_new {version : UInt8} (close : Bool) (h : version = 0x10 ∨ version = 0x11) :
    (new version close).Printable where
  version := h
  reason := fun _ hc => absurd hc List.not_mem_nil
  headers := List.Pairwise.nil
  name := fun _ hx => absurd hx List.not_mem_nil
  other := fun _ hx => absurd hx List.not_mem_nil
  value := fun _ hx => absurd hx List.not_mem_nil

theorem Printable.setStatus (status : UInt32) (h : response.Printable) :
    (response.setStatus status).Printable :=
  ⟨h.version, h.reason, h.headers, h.name, h.other, h.value⟩

theorem Printable.setBody (body : List UInt8) (h : response.Printable) :
    (response.setBody body).Printable :=
  ⟨h.version, h.reason, h.headers, h.name, h.other, h.value⟩

end HttpResponse

/-- Setting a header gives a map, in which one header has the value, under the name that is set or
under the one that is there with the same letters. -/
theorem setHeader_sorted (key val : List UInt8) {headers : List (List UInt8 × List UInt8)}
    (hsorted : headers.Pairwise Before) : (setHeader key val headers).Pairwise Before ∧
      ∀ x ∈ setHeader key val headers, x ∈ headers ∨ x.2 = val ∧
        (x.1 = key ∨ ∃ y ∈ headers, y.1 = x.1) := by
  rw [setHeader_eq_put]
  refine ⟨SortedMap.Ordered.put hsorted key val, fun x hx => ?_⟩
  exact (SortedMap.mem_put hx).imp_right fun ⟨hval, _, hkey⟩ => ⟨hval, hkey⟩

/-- **A header that can be printed** keeps the response so. -/
theorem HttpResponse.Printable.setHeader {response : HttpResponse} {key val : List UInt8}
    (h : response.Printable) (hname : key ≠ [] ∧ ∀ c ∈ key, isToken c = true)
    (hother : ∀ name ∈ watched, strcasecmp key name = false)
    (hvalue : (∀ c ∈ val, isText c = true) ∧ ∀ c ∈ val.head?, isSpacing c = false) :
    (response.setHeader key val).Printable := by
  have hsorted : response.headers.Pairwise Before := h.headers.imp fun hless =>
    (caseInsensitiveLess_iff _ _).mp hless
  obtain ⟨hset, hmem⟩ := setHeader_sorted key val hsorted
  refine ⟨h.version, h.reason, hset.imp fun hless => (caseInsensitiveLess_iff _ _).mpr hless,
    fun x hx => ?_, fun x hx => ?_, fun x hx => ?_⟩
  · rcases hmem x hx with hx | ⟨-, hkey | ⟨y, hy, hsame⟩⟩
    · exact h.name x hx
    · exact hkey ▸ hname
    · exact hsame ▸ h.name y hy
  · rcases hmem x hx with hx | ⟨-, hkey | ⟨y, hy, hsame⟩⟩
    · exact h.other x hx
    · exact hkey ▸ hother
    · exact hsame ▸ h.other y hy
  · rcases hmem x hx with hx | ⟨hval, -⟩
    · exact h.value x hx
    · exact hval ▸ hvalue

/-! ## Sound servlets -/

/-- **A sound servlet** sets only what can be printed, and no body whose length is not an `int`. -/
def Servlet.Sound (slt : Servlet) : Prop :=
  ∀ request response, response.Printable → response.body.length < 2 ^ 31 →
    (slt request response).Printable ∧ (slt request response).body.length < 2 ^ 31

theorem NotFoundServlet.sound : Servlet.Sound handle := by
  intro request response h _
  have hserver : (bytes "Server" ≠ [] ∧ ∀ c ∈ bytes "Server", isToken c = true) ∧
      (∀ c ∈ bytes "custom-server/1.0.0", isText c = true) ∧
      ∀ c ∈ (bytes "custom-server/1.0.0").head?, isSpacing c = false := by
    decide +kernel
  have htype : (bytes "Content-Type" ≠ [] ∧ ∀ c ∈ bytes "Content-Type", isToken c = true) ∧
      (∀ c ∈ bytes "text/html", isText c = true) ∧
      ∀ c ∈ (bytes "text/html").head?, isSpacing c = false := by
    decide +kernel
  have hlen : RSP_BODY.length < 2 ^ 31 := by decide +kernel
  have hheaders := ((h.setStatus 404).setHeader hserver.1 (by decide) hserver.2).setHeader
    htype.1 (by decide) htype.2
  refine ⟨hheaders.setBody RSP_BODY, ?_⟩
  rwa [handle, HttpResponse.body_setBody]

namespace ServletDispatch

variable {σ : Type*}

/-- The servlet that a call registers. -/
def Op.servlet : Op σ → Option σ
  | .addServlet _ slt => slt
  | .addGlobServlet _ slt => slt
  | .delServlet _ => none
  | .delGlobServlet _ => none

/-- What holds of the servlets of a dispatcher. -/
structure Holds (P : σ → Prop) (d : ServletDispatch σ) : Prop where
  datas : ∀ uri, ∀ slt ∈ (d.datas uri).join, P slt
  globs : ∀ glob ∈ d.globs, ∀ slt ∈ glob.2, P slt
  default : ∀ slt ∈ d.default, P slt

variable {P : σ → Prop} {d : ServletDispatch σ}

theorem Holds.step (h : d.Holds P) {op : Op σ} (hop : ∀ slt ∈ op.servlet, P slt) :
    (d.step op).Holds P := by
  have herased : ∀ uri, ∀ glob ∈ eraseGlob d.globs uri, ∀ slt ∈ glob.2, P slt :=
    fun uri glob hglob => h.globs glob (List.mem_of_mem_eraseP hglob)
  cases op with
  | addServlet uri slt =>
    refine ⟨fun other => ?_, h.globs, h.default⟩
    simp only [ServletDispatch.step, addServlet, Function.update_apply]
    split_ifs
    · exact hop
    · exact h.datas other
  | addGlobServlet uri slt =>
    refine ⟨h.datas, fun glob hglob => ?_, h.default⟩
    rcases List.mem_append.mp hglob with hglob | hglob
    · exact herased uri glob hglob
    · obtain rfl := List.mem_singleton.mp hglob
      exact hop
  | delServlet uri =>
    refine ⟨fun other => ?_, h.globs, h.default⟩
    simp only [ServletDispatch.step, delServlet, Function.update_apply]
    split_ifs
    · exact fun _ hslt => absurd hslt (Option.not_mem_none _)
    · exact h.datas other
  | delGlobServlet uri => exact ⟨h.datas, herased uri, h.default⟩

theorem Holds.run (h : d.Holds P) {ops : List (Op σ)}
    (hops : ∀ op ∈ ops, ∀ slt ∈ op.servlet, P slt) : (d.run ops).Holds P := by
  induction ops generalizing d with
  | nil => exact h
  | cons op ops ih =>
    obtain ⟨hop, hops⟩ := List.forall_mem_cons.mp hops
    exact ih (h.step hop) hops

/-- What holds of all servlets holds of the one that is found. -/
theorem Holds.matched (h : d.Holds P) {fnmatch : List UInt8 → List UInt8 → Bool}
    {uri : List UInt8} : ∀ slt ∈ d.getMatchedServlet fnmatch uri, P slt := by
  have hdatas := h.datas uri
  unfold getMatchedServlet
  cases hdata : d.datas uri with
  | some slt => simpa [hdata] using hdatas
  | none =>
    cases hglob : d.globs.find? (fun glob => fnmatch glob.1 uri) with
    | some glob => exact h.globs glob (List.mem_of_find?_eq_some hglob)
    | none => exact h.default

end ServletDispatch

/-- **The dispatcher is sound** where the servlets are that it may find. -/
theorem Servlet.Sound.dispatch {d : ServletDispatch Servlet} (h : d.Holds Servlet.Sound)
    (fnmatch : List UInt8 → List UInt8 → Bool) : Servlet.Sound (d.handle fnmatch) := by
  intro request response hprintable hbody
  unfold ServletDispatch.handle
  cases hslt : d.getMatchedServlet fnmatch request.path with
  | none => exact ⟨hprintable, hbody⟩
  | some slt => exact h.matched slt hslt request response hprintable hbody

namespace HttpServer

/-- A server with these registrations. -/
def registered (keepalive : Bool) (ops : List (ServletDispatch.Op Servlet)) : HttpServer where
  isKeepalive := keepalive
  dispatch := (new keepalive).dispatch.run ops

/-- **A server with sound servlets** makes responses that can be printed. -/
theorem printable_respond {server : HttpServer} (hsound : server.dispatch.Holds Servlet.Sound)
    (request : HttpMessage) (hversion : request.version = 0x10 ∨ request.version = 0x11)
    (fnmatch : List UInt8 → List UInt8 → Bool) : (server.respond fnmatch request).Printable ∧
      (server.respond fnmatch request).body.length < 2 ^ 31 :=
  Servlet.Sound.dispatch hsound fnmatch _ _ (HttpResponse.printable_new _ hversion)
    (Nat.two_pow_pos 31)

end HttpServer

end Http

end Sylar
