import Federation.Account.Basic
import Federation.Account.Build
import Federation.Account.Configuration
import Federation.Account.Description
import Federation.Boundary.Basic
import Federation.Boundary.Lookup
import Federation.Certificate.Der
import Federation.Certificate.Pem
import Federation.Certificate.X509
import Federation.Credentials.Basic
import Federation.Credentials.Session
import Federation.Credentials.Slot
import Federation.Encoding.Base64
import Federation.Encoding.Form
import Federation.Endpoint.Allowed
import Federation.Endpoint.PlainForm
import Federation.Endpoint.Url
import Federation.Failure
import Federation.Files
import Federation.Http.Header
import Federation.Http.Message
import Federation.Http.Outgoing
import Federation.Http.Status
import Federation.Json.Cursor
import Federation.Json.Decode
import Federation.Json.Error
import Federation.Json.Printer
import Federation.Json.Reader
import Federation.Json.Value
import Federation.Number.Binary64
import Federation.Proofs.Account.Build
import Federation.Proofs.Account.Description
import Federation.Proofs.Account.Draft
import Federation.Proofs.Account.Impersonated
import Federation.Proofs.Account.Rebuild
import Federation.Proofs.Account.Scopes
import Federation.Proofs.Boundary.Audience
import Federation.Proofs.Boundary.Text
import Federation.Proofs.Credentials.Apply
import Federation.Proofs.Encoding.Base64
import Federation.Proofs.Encoding.Form
import Federation.Proofs.Endpoint.Grammar
import Federation.Proofs.Endpoint.Labels
import Federation.Proofs.Endpoint.Layout
import Federation.Proofs.Endpoint.Overlap
import Federation.Proofs.Family.Basic
import Federation.Proofs.Family.Guarantees
import Federation.Proofs.Family.Isolation
import Federation.Proofs.Http.Headers
import Federation.Proofs.Json.Compact
import Federation.Proofs.Json.Filled
import Federation.Proofs.Json.Members
import Federation.Proofs.Json.Passing
import Federation.Proofs.Json.Readback
import Federation.Proofs.Json.Skipping
import Federation.Proofs.Refresh.Causes
import Federation.Proofs.Refresh.Confinement
import Federation.Proofs.Refresh.Discipline
import Federation.Proofs.Refresh.Grant
import Federation.Proofs.Refresh.Lifetime
import Federation.Proofs.Refresh.Need
import Federation.Proofs.Refresh.Requests
import Federation.Proofs.Refresh.Sources
import Federation.Proofs.Refresh.Stages
import Federation.Proofs.SubjectToken.Certificate
import Federation.Proofs.SubjectToken.Description
import Federation.Proofs.SubjectToken.Extraction
import Federation.Proofs.Text.Cut
import Federation.Proofs.Text.Utf8
import Federation.Proofs.Time.Calendar
import Federation.Proofs.Time.Written
import Federation.Proofs.Token.Exchange
import Federation.Proofs.Token.Expiry
import Federation.Proofs.Token.Seconds
import Federation.Proofs.Traffic.Alone
import Federation.Proofs.Traffic.Basic
import Federation.Proofs.Traffic.Boundary
import Federation.Proofs.Traffic.Chronicle
import Federation.Proofs.Traffic.Decay
import Federation.Proofs.Traffic.Decision
import Federation.Proofs.Traffic.Failures
import Federation.Proofs.Traffic.Horizon
import Federation.Proofs.Traffic.Leftovers
import Federation.Proofs.Traffic.Lookups
import Federation.Proofs.Traffic.Publication
import Federation.Proofs.Traffic.Story
import Federation.Proofs.Traffic.Turn
import Federation.Proofs.Traffic.Validity
import Federation.Proofs.Worker.Basic
import Federation.Proofs.Worker.Captured
import Federation.Proofs.World.Conversation
import Federation.Report
import Federation.SubjectToken.Certificate
import Federation.SubjectToken.Retrieval
import Federation.SubjectToken.Source
import Federation.Text.Blank
import Federation.Text.Decimal
import Federation.Text.Hex
import Federation.Text.Hidden
import Federation.Text.Quoted
import Federation.Text.Utf8
import Federation.Time.Clock
import Federation.Time.Timestamp
import Federation.Token.Basic
import Federation.Token.Exchange
import Federation.Token.Freshness
import Federation.Token.Impersonation
import Federation.World
