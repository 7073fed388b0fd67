import EntityMapping.Store.Results

/-!
A store behind a remote endpoint.

Queries and updates are sent as forms.  A request succeeds when the answer's status says so; it is
never sent twice and no redirection is followed.
-/

namespace EntityMapping

/-- A request to an endpoint. -/
structure Request where
  url : String
  /-- The media type that the answer should have. -/
  accept : String
  form : List (String × String)
  deriving DecidableEq, Repr

/-- What comes back for a request. -/
inductive Reply where
  | answered (status : Nat) (body : String)
  | refused (reason : String)
  deriving DecidableEq, Repr

/-- A way to send requests. -/
class Transport (τ : Type) where
  send : Request → τ → Reply × τ

/-- Where a remote store takes its queries and updates, and how long it may take for them, as the
text of a number of seconds. -/
structure Endpoint where
  queryUrl : String
  updateUrl : String
  timeout : Binary64
  deriving DecidableEq, Repr

namespace Endpoint

/-- The media type of results of queries. -/
def resultType : String := "application/sparql-results+json"

/-- An endpoint; updates go where queries go unless they have a place of their own. -/
def ofUrls (queryUrl : String) (updateUrl : Option String) (timeout : Binary64) : Endpoint :=
  ⟨queryUrl, (updateUrl.filter (!·.isEmpty)).getD queryUrl, timeout⟩

/-- The request of a query. -/
def queryRequest (e : Endpoint) (query : String) : Request :=
  ⟨e.queryUrl, resultType, [("query", query)]⟩

/-- The request of an update. -/
def updateRequest (e : Endpoint) (update : String) : Request :=
  ⟨e.updateUrl, "*/*", [("update", update)]⟩

/-- The body of a successful answer. -/
def body (request : Request) : Reply → Except StoreError String
  | .answered status body =>
    if 200 ≤ status && status < 300 then .ok body
    else .error (.answered request.url status body)
  | .refused reason => .error (.unreachable request.url reason)

/-- The rows that a reply to a query holds. -/
def rows (e : Endpoint) (request : Request) (reply : Reply) : Except StoreError (List Row) := do
  match Results.read (← body request reply) with
  | some rows => return rows
  | none => throw (.malformedResult e.queryUrl)

end Endpoint

/-- An endpoint with a way to reach it. -/
structure RemoteStore (τ : Type) where
  endpoint : Endpoint
  transport : τ

namespace RemoteStore

variable {τ : Type} [Transport τ]

/-- Sends a request. -/
def post (s : RemoteStore τ) (request : Request) : Reply × RemoteStore τ :=
  let (reply, transport) := Transport.send request s.transport
  (reply, { s with transport := transport })

instance : GraphStore (RemoteStore τ) where
  query text s :=
    let request := s.endpoint.queryRequest text
    let (reply, s) := s.post request
    (s.endpoint.rows request reply, s)
  update text s :=
    let request := s.endpoint.updateRequest text
    let (reply, s) := s.post request
    ((Endpoint.body request reply).map fun _ => (), s)

end RemoteStore

end EntityMapping
