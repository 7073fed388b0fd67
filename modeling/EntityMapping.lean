import EntityMapping.Main
import EntityMapping.Session.Commit
import EntityMapping.Session.Loading
import EntityMapping.Session.Mutation
import EntityMapping.Store.Replay
import EntityMapping.Proofs.Sparql.Cutting
import EntityMapping.Proofs.Sparql.Tokens
import EntityMapping.Proofs.Sparql.Written
import EntityMapping.Proofs.Sparql.Steps
import EntityMapping.Proofs.Filling
import EntityMapping.Proofs.Sparql.Effects
import EntityMapping.Proofs.Change.Update
import EntityMapping.Proofs.Entity.State
import EntityMapping.Proofs.Entity.Draft
import EntityMapping.Proofs.Change.Edit
import EntityMapping.Proofs.Cache
import EntityMapping.Proofs.Session.Loading
import EntityMapping.Proofs.Entity.Mutation
import EntityMapping.Proofs.Session.Mutation
import EntityMapping.Proofs.Session.Run
import EntityMapping.Proofs.Session.Queue
import EntityMapping.Proofs.Session.Baseline
import EntityMapping.Proofs.Change.Replay
import EntityMapping.Proofs.Entity.Sound
import EntityMapping.Proofs.Session.View
import EntityMapping.Proofs.Session.Pending
import EntityMapping.Proofs.Session.Writer
import EntityMapping.Proofs.Journal
import EntityMapping.Proofs.Session.Attempt
import EntityMapping.Proofs.Sparql.Admitted
import EntityMapping.Proofs.Sparql.Projection
import EntityMapping.Proofs.Analysis.Nullable
import EntityMapping.Proofs.Analysis.Reach
import EntityMapping.Proofs.Analysis.Links
import EntityMapping.Proofs.Analysis.Functional
import EntityMapping.Proofs.Analysis.Owner
import EntityMapping.Proofs.Change.Founded
import EntityMapping.Proofs.Entity.Founded
import EntityMapping.Proofs.Session.Rendering
import EntityMapping.Proofs.Session.Episode
import EntityMapping.Proofs.Template.Slots
import EntityMapping.Proofs.Template.Calls
import EntityMapping.Proofs.Change.Retry
import EntityMapping.Proofs.Cache.Bound
import EntityMapping.Proofs.Session.Pins
import EntityMapping.Proofs.Sparql.Nesting
import EntityMapping.Proofs.Entity.Rows
import EntityMapping.Proofs.Session.Lookup
import EntityMapping.Proofs.Sparql.Star
import EntityMapping.Proofs.Analysis.Star
import EntityMapping.Proofs.Entity.Supplied
import EntityMapping.Proofs.Session.RoundTrip
import EntityMapping.Proofs.Session.Found
import EntityMapping.Proofs.Session.Selected
import EntityMapping.Proofs.Entity.Templates
import EntityMapping.Proofs.Sparql.Enclosed
import EntityMapping.Proofs.Sparql.Enclosed.Triples
import EntityMapping.Proofs.Sparql.Scanning
import EntityMapping.Proofs.Sparql.Enclosed.Groups
import EntityMapping.Proofs.Sparql.Enclosed.Selections
import EntityMapping.Proofs.Sparql.Enclosed.Wrapped
import EntityMapping.Proofs.Sparql.Declarations
import EntityMapping.Proofs.Sparql.Gaps
import EntityMapping.Proofs.Session.Texts
import EntityMapping.Proofs.Analysis.Routes
import EntityMapping.Proofs.Analysis.Digest
import EntityMapping.Proofs.Analysis.Rearranged
import EntityMapping.Proofs.Analysis.Ambiguous
import EntityMapping.Proofs.Session.Identity
import EntityMapping.Proofs.Analysis.Analyzable
import EntityMapping.Proofs.Analysis.Lowering
import EntityMapping.Proofs.Entity.Initial
import EntityMapping.Proofs.Session.Creation
import EntityMapping.Proofs.Session.Refusal
import EntityMapping.Proofs.Entity.Encoding
import EntityMapping.Proofs.Session.Writing
import EntityMapping.Proofs.Session.WriteBack
import EntityMapping.Proofs.Session.Removal
import EntityMapping.Proofs.Session.Keyed
import EntityMapping.Proofs.Entity.Grouping
import EntityMapping.Proofs.Session.Grouped
import EntityMapping.Proofs.Number.Reading
import EntityMapping.Proofs.Number.Digits
import EntityMapping.Proofs.Number.Decimal
import EntityMapping.Proofs.Number.Rounding
import EntityMapping.Proofs.Number.Shortest
import EntityMapping.Proofs.Number.Calendar
import EntityMapping.Proofs.Term.Equality
import EntityMapping.Proofs.Term.Honest
import EntityMapping.Proofs.Sparql.Legible
import EntityMapping.Proofs.Sparql.Rereading
import EntityMapping.Proofs.Entity.Lasting
import EntityMapping.Proofs.Session.Persistence
import EntityMapping.Proofs.Cache.Run
import EntityMapping.Proofs.Cache.Recency
import EntityMapping.Proofs.Session.Redirection
import EntityMapping.Proofs.Sparql.Required
import EntityMapping.Proofs.Session.Sparing
import EntityMapping.Proofs.Session.Sustained
import EntityMapping.Proofs.Session.Reloading
