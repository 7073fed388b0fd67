/-!
What can go wrong in a request to a store.
-/

namespace EntityMapping

/-- The cause for which a store refuses a request. -/
inductive StoreError where
  /-- The query cannot be read or answered. -/
  | queryFailed
  /-- The update cannot be read or applied. -/
  | updateFailed
  /-- The query is of another form than a selection. -/
  | notSelection (form : String)
  /-- A remote store answered with a status that is no success. -/
  | answered (url : String) (status : Nat) (body : String)
  | unreachable (url reason : String)
  | malformedResult (url : String)
  /-- Any other refusal, in the store's own words. -/
  | refused (message : String)
  deriving DecidableEq, Repr

namespace StoreError

/-- How much of the body of an answer a message shows. -/
def shownBody : Nat := 200

/-- What an error says. -/
def message : StoreError → String
  | .queryFailed => "Query failed"
  | .updateFailed => "Update failed"
  | .notSelection form => "Expected a SELECT query, got " ++ form
  | .answered url status body =>
    url ++ " answered " ++ toString status ++ ": " ++
      String.ofList (body.toList.take shownBody)
  | .unreachable url reason => "Request to " ++ url ++ " failed: " ++ reason
  | .malformedResult url => "Malformed query result from " ++ url
  | .refused message => message

end StoreError

end EntityMapping
