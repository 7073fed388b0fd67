import EntityMapping.Store.Endpoint

/-!
Stores for trying things out: one that plays back prepared answers, one that remembers what it was
asked, and a transport that does both.
-/

namespace EntityMapping

/-- A store that answers queries as prepared, one after the other, and then with no rows.  It
accepts every update. -/
structure PreparedStore where
  answers : List (Except StoreError (List Row))

instance : GraphStore PreparedStore where
  query _ s :=
    match s.answers with
    | [] => (.ok [], s)
    | answer :: rest => (answer, ⟨rest⟩)
  update _ s := (.ok (), s)

/-- A store of one of two kinds. -/
instance {α β : Type} [GraphStore α] [GraphStore β] : GraphStore (α ⊕ β) where
  query text
    | .inl s => (GraphStore.query text s).map id .inl
    | .inr s => (GraphStore.query text s).map id .inr
  update text
    | .inl s => (GraphStore.update text s).map id .inl
    | .inr s => (GraphStore.update text s).map id .inr

/-- A store with the queries that it was asked and the updates that it accepted, in order. -/
structure RecordedStore (σ : Type) where
  store : σ
  queries : List String
  updates : List String

instance {σ : Type} [GraphStore σ] : GraphStore (RecordedStore σ) where
  query text s :=
    let (answer, store) := GraphStore.query text s.store
    (answer, ⟨store, s.queries ++ [text], s.updates⟩)
  update text s :=
    let (result, store) := GraphStore.update text s.store
    let updates := match result with
      | .ok () => s.updates ++ [text]
      | .error _ => s.updates
    (result, ⟨store, s.queries, updates⟩)

/-- Prepared replies, and the requests that came in.  When no reply is left, requests succeed
without a body. -/
structure PreparedReplies where
  replies : List Reply
  requests : List Request
  deriving DecidableEq, Repr

instance : Transport PreparedReplies where
  send request t :=
    (t.replies.head?.getD (.answered 204 ""), ⟨t.replies.tail, t.requests ++ [request]⟩)

end EntityMapping
