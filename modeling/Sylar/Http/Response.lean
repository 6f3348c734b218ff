import Sylar.Http.Message

/-!
# Responses

An `HttpResponse` and the text that it prints as. Its headers are a map with the order of those of
a request. A status is the number of the enumeration, which the parser of a response takes from the
text as it is: it need not be one of the table.

## Main definitions

* `httpStatusMap`, `httpStatusToString`: the statuses and their descriptions
* `HttpResponse`, `HttpResponse.dump`: a response, and its text
-/

namespace Sylar

namespace Http

def httpStatusMap : List (UInt32 × String) := [
  (100, "Continue"), (101, "Switching Protocols"), (102, "Processing"), (200, "OK"),
  (201, "Created"), (202, "Accepted"), (203, "Non-Authoritative Information"), (204, "No Content"),
  (205, "Reset Content"), (206, "Partial Content"), (207, "Multi-Status"),
  (208, "Already Reported"), (226, "IM Used"), (300, "Multiple Choices"),
  (301, "Moved Permanently"), (302, "Found"), (303, "See Other"), (304, "Not Modified"),
  (305, "Use Proxy"), (307, "Temporary Redirect"), (308, "Permanent Redirect"),
  (400, "Bad Request"), (401, "Unauthorized"), (402, "Payment Required"), (403, "Forbidden"),
  (404, "Not Found"), (405, "Method Not Allowed"), (406, "Not Acceptable"),
  (407, "Proxy Authentication Required"), (408, "Request Timeout"), (409, "Conflict"),
  (410, "Gone"), (411, "Length Required"), (412, "Precondition Failed"), (413, "Payload Too Large"),
  (414, "URI Too Long"), (415, "Unsupported Media Type"), (416, "Range Not Satisfiable"),
  (417, "Expectation Failed"), (421, "Misdirected Request"), (422, "Unprocessable Entity"),
  (423, "Locked"), (424, "Failed Dependency"), (426, "Upgrade Required"),
  (428, "Precondition Required"), (429, "Too Many Requests"),
  (431, "Request Header Fields Too Large"), (451, "Unavailable For Legal Reasons"),
  (500, "Internal Server Error"), (501, "Not Implemented"), (502, "Bad Gateway"),
  (503, "Service Unavailable"), (504, "Gateway Timeout"), (505, "HTTP Version Not Supported"),
  (506, "Variant Also Negotiates"), (507, "Insufficient Storage"), (508, "Loop Detected"),
  (510, "Not Extended"), (511, "Network Authentication Required")]

def httpStatusToString (s : UInt32) : String :=
  ((httpStatusMap.find? fun x => x.1 = s).map (·.2)).getD "<unknown>"

structure HttpResponse where
  status : UInt32 := 200
  version : UInt8 := 0x11
  close : Bool := true
  body : List UInt8 := []
  reason : List UInt8 := []
  headers : List (List UInt8 × List UInt8) := []
  deriving DecidableEq, Repr

/-- A header in the text of a response; that of the connection is written behind them. -/
def HttpResponse.dumpHeader (header : List UInt8 × List UInt8) : List UInt8 :=
  if header.1 = bytes "connection" then []
  else header.1 ++ bytes ": " ++ header.2 ++ bytes "\r\n"

/-- `HttpResponse::dump`. -/
def HttpResponse.dump (response : HttpResponse) : List UInt8 :=
  bytes "HTTP/" ++ bytes (toString (response.version.toNat >>> 4)) ++ bytes "." ++
    bytes (toString (response.version.toNat &&& 0x0F)) ++ bytes " " ++
    bytes (toString response.status.toNat) ++ bytes " " ++
    (if response.reason = [] then bytes (httpStatusToString response.status)
      else response.reason) ++ bytes "\r\n" ++
    response.headers.flatMap dumpHeader ++
    bytes "connection: " ++ bytes (if response.close then "close" else "keep-alive") ++
    bytes "\r\n" ++
    if response.body = [] then bytes "\r\n"
    else bytes "content-length: " ++ bytes (toString response.body.length) ++
      bytes "\r\n\r\n" ++ response.body

end Http

end Sylar
