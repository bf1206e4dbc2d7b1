import DatasetGraph.Http.MediaType
import DatasetGraph.Json.Decode
import DatasetGraph.Text.Form

/-!
# Requests and responses

A request names a path, by itself or on a host, may carry a query and may carry a body.  The body is
read only if it is declared to be JSON; a body that is not JSON is told apart from one that says
something else than what is due.  A response has a status and mostly a body.
-/

namespace DatasetGraph.Http

/-- What a request wants done at its path. -/
inductive Method where
  | get
  /-- As `get`, but without a body in the response. -/
  | head
  | post
  /-- What a browser asks before it asks for more. -/
  | options
  | other (name : String)
deriving DecidableEq

/-- The method of a name. -/
def Method.ofName (name : String) : Method :=
  if name = "GET" then .get
  else if name = "HEAD" then .head
  else if name = "POST" then .post
  else if name = "OPTIONS" then .options
  else .other name

/-- A request. -/
structure Request where
  method : Method
  /-- The path, and the query behind a question mark; scheme and host may stand before them. -/
  target : String
  /-- The declared type of the body. -/
  contentType : Option String
  body : String
deriving DecidableEq

/-- A response. -/
structure Response where
  status : Nat
  body : Option Json
deriving DecidableEq

/-- A response without a body that is JSON. -/
def Response.bare (status : Nat) : Response := ⟨status, none⟩

namespace Request

/-! ## The target -/

/-- Whether a character may stand in the name of a scheme. -/
def isSchemeChar (c : Char) : Bool := c.isAlphanum || c = '+' || c = '-' || c = '.'

/-- A target without the scheme and the host that it may start with. -/
def afterHost (target : List Char) : List Char :=
  match target.span isSchemeChar with
  | (_ :: _, ':' :: '/' :: '/' :: rest) => rest.dropWhile fun c => c ≠ '/' ∧ c ≠ '?'
  | _ => target

/-- The path and the query, without the fragment that the target may end with. -/
def address (r : Request) : List Char := afterHost (r.target.toList.takeWhile (· ≠ '#'))

/-- The path; the one of a host alone is a slash. -/
def path (r : Request) : String :=
  match r.address.takeWhile (· ≠ '?') with
  | [] => "/"
  | cs => String.ofList cs

/-- The names and values of the query. -/
def fields (r : Request) : List (String × String) :=
  Text.Form.pairs ((r.address.dropWhile (· ≠ '?')).drop 1)

/-- The value of a name in the query, which has to be there once. -/
def field? (r : Request) (name : String) : Option String :=
  match r.fields.filter fun f => f.1 = name with
  | [f] => some f.2
  | _ => none

/-! ## The body -/

/-- Read the body. -/
def read {α : Type} (r : Request) (d : Json.Decoder α) : Except Response α :=
  if r.contentType.any MediaType.declaresJson then
    match Json.Decoder.ofText d r.body with
    | .ok a => .ok a
    | .error fault => .error (.bare (if fault.isText then 400 else 422))
  else .error (.bare 415)

end Request

end DatasetGraph.Http
