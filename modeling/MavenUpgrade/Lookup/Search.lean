import MavenUpgrade.Collection.Distinct
import MavenUpgrade.Json.Reader
import MavenUpgrade.Lookup.Address
import MavenUpgrade.Lookup.Basic

/-!
# Searching Maven Central

Maven Central answers a search for the versions of a package over HTTP. This module holds what is
asked and what an answer means: an answer that settles the matter ends the search, and after one
that does not, the search is tried again a limited number of times.
-/

namespace MavenUpgrade.Search

/-- The name of the registry in messages. -/
def registryName : String := "Maven Central"

/-- The address of the search when no other one is given. -/
def defaultEndpoint : String := "https://search.maven.org/solrsearch/select"

/-- The largest number of versions that are asked for. -/
def maxVersions : Nat := 200

/-- The number of times that a search is tried again. -/
def defaultRetries : Nat := 3

/-- The group and the artifact that a package name joins with its only colon. -/
def coordinates? (name : String) : Option (String × String) :=
  match (Text.splitWhere (· == ':') name.toList).map String.ofList with
  | [group, artifact] => if group.isEmpty || artifact.isEmpty then none else some (group, artifact)
  | _ => none

/-- An address without the slashes that it ends with. -/
def dropSlashes (address : String) : String :=
  String.ofList (address.toList.reverse.dropWhile (· == '/')).reverse

/-- The address that asks an endpoint for the versions of a package. -/
def address (endpoint group artifact : String) : String :=
  dropSlashes endpoint ++ "?q=g:" ++ group ++ "+AND+a:" ++ artifact ++
    "&core=gav&rows=" ++ Nat.repr maxVersions ++ "&wt=json"

/-- An answer to a request. -/
structure Response where
  status : Nat
  body : String
  deriving DecidableEq, Repr

/-- The words that stand for a status. -/
def reason (status : Nat) : String :=
  match status with
  | 100 => "Continue"
  | 101 => "Switching Protocols"
  | 102 => "Processing"
  | 200 => "OK"
  | 201 => "Created"
  | 202 => "Accepted"
  | 203 => "Non Authoritative Information"
  | 204 => "No Content"
  | 205 => "Reset Content"
  | 206 => "Partial Content"
  | 207 => "Multi-Status"
  | 208 => "Already Reported"
  | 226 => "IM Used"
  | 300 => "Multiple Choices"
  | 301 => "Moved Permanently"
  | 302 => "Found"
  | 303 => "See Other"
  | 304 => "Not Modified"
  | 305 => "Use Proxy"
  | 307 => "Temporary Redirect"
  | 308 => "Permanent Redirect"
  | 400 => "Bad Request"
  | 401 => "Unauthorized"
  | 402 => "Payment Required"
  | 403 => "Forbidden"
  | 404 => "Not Found"
  | 405 => "Method Not Allowed"
  | 406 => "Not Acceptable"
  | 407 => "Proxy Authentication Required"
  | 408 => "Request Timeout"
  | 409 => "Conflict"
  | 410 => "Gone"
  | 411 => "Length Required"
  | 412 => "Precondition Failed"
  | 413 => "Payload Too Large"
  | 414 => "URI Too Long"
  | 415 => "Unsupported Media Type"
  | 416 => "Range Not Satisfiable"
  | 417 => "Expectation Failed"
  | 418 => "I'm a teapot"
  | 421 => "Misdirected Request"
  | 422 => "Unprocessable Entity"
  | 423 => "Locked"
  | 424 => "Failed Dependency"
  | 425 => "Too Early"
  | 426 => "Upgrade Required"
  | 428 => "Precondition Required"
  | 429 => "Too Many Requests"
  | 431 => "Request Header Fields Too Large"
  | 451 => "Unavailable For Legal Reasons"
  | 500 => "Internal Server Error"
  | 501 => "Not Implemented"
  | 502 => "Bad Gateway"
  | 503 => "Service Unavailable"
  | 504 => "Gateway Timeout"
  | 505 => "HTTP Version Not Supported"
  | 506 => "Variant Also Negotiates"
  | 507 => "Insufficient Storage"
  | 508 => "Loop Detected"
  | 510 => "Not Extended"
  | 511 => "Network Authentication Required"
  | _ => "<unknown status code>"

/-- The wording for a status that is no success. -/
def statusMessage (status : Nat) : String :=
  "HTTP " ++ Nat.repr status ++ " " ++ reason status

/-- The wording for a body that is not of the expected form. -/
def badBodyMessage : String := "failed to parse JSON"

/-- The value of the only field of a name in an object, or the only item of an array. -/
def member? (name : String) : Json → Option Json
  | .object fields =>
    match fields.filter (·.1 = name) with
    | [(_, value)] => some value
    | _ => none
  | .array [item] => some item
  | _ => none

/-- The versions that the body of an answer lists, in order. -/
def bodyVersions? (body : String) : Option (List String) := do
  let documents ← member? "docs" (← member? "response" (← Json.ofText? body))
  documents.listOf? fun document => (member? "v" document).bind Json.text?

/-- The body of an answer; an answer with the status for no content has an empty one. -/
def Response.content (r : Response) : String :=
  if r.status = 204 then "" else r.body

/-- What an answer means: what the search comes to, and whether it is worth another try. -/
def Response.verdict (r : Response) : Except LookupFault (List String) × Bool :=
  if r.status = 429 then (.error .rateLimited, true)
  else if r.status = 404 then (.error .unknownPackage, false)
  else if 500 ≤ r.status ∧ r.status < 600 then
    (.error (.network (statusMessage r.status)), true)
  else if 200 ≤ r.status ∧ r.status < 300 then
    match bodyVersions? r.content with
    | some [] => (.error .unknownPackage, false)
    | some versions => (.ok (distinct versions), false)
    | none => (.error (.invalidResponse badBodyMessage), true)
  else (.error (.network (statusMessage r.status)), false)

/-- The wording for an address that no request can be made for. -/
def badAddressMessage : AddressFault → String
  | .malformed => "builder error"
  | .otherScheme address => "builder error for url (" ++ address ++ ")"

/-- The wording for a request without an answer. -/
def noAnswerMessage (a : Address) : String :=
  "error sending request for url (" ++ a.text ++ ")"

/--
The number of requests that are made when they are answered in turn by the given responses, and
what the search comes to. A request without an answer, which `unanswered` words, may be tried
again as well.
-/
def attempt (unanswered : String) :
    (retries : Nat) → List Response → Nat × Except LookupFault (List String)
  | retries, [] => (retries + 1, .error (.network unanswered))
  | 0, r :: _ => (1, r.verdict.1)
  | retries + 1, r :: rest =>
    match r.verdict with
    | (result, false) => (1, result)
    | (_, true) =>
      let (requests, result) := attempt unanswered retries rest
      (requests + 1, result)

/-- The outcome of a search. -/
def lookupOf (name : String) : Except LookupFault (List String) → Lookup
  | .ok versions => .found versions
  | .error fault => .failed ⟨fault, name, registryName⟩

/--
The targets of the requests that a search for a package makes when they are answered in turn by
the given responses, and its outcome.
-/
def run (endpoint name : String) (retries : Nat) (responses : List Response) :
    List String × Lookup :=
  match coordinates? name with
  | none => ([], lookupOf name (.error .invalidName))
  | some (group, artifact) =>
    match Address.read (address endpoint group artifact) with
    | .error fault => ([], lookupOf name (.error (.network (badAddressMessage fault))))
    | .ok a =>
      let (requests, result) := attempt (noAnswerMessage a) retries responses
      (List.replicate requests a.target, lookupOf name result)

end MavenUpgrade.Search
