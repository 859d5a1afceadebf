import JourneyPages.CommandLine
import JourneyPages.Document.Preferences
import JourneyPages.Document.Request
import JourneyPages.Document.Response
import JourneyPages.Encoding.Base64Url
import JourneyPages.Filter.Cap
import JourneyPages.Filter.Chain
import JourneyPages.Filter.Flagger
import JourneyPages.Filter.Grouping
import JourneyPages.Filter.Plan
import JourneyPages.Filter.Preferences
import JourneyPages.Filter.Stage
import JourneyPages.Json.Printer
import JourneyPages.Json.Reader
import JourneyPages.Json.Record
import JourneyPages.Json.Token
import JourneyPages.Json.Value
import JourneyPages.Main
import JourneyPages.Number.Binary64
import JourneyPages.Number.Fixed
import JourneyPages.Number.Literal
import JourneyPages.Number.Numeral
import JourneyPages.Number.Rounding
import JourneyPages.Number.Shortest
import JourneyPages.Paging.Cursor
import JourneyPages.Paging.Links
import JourneyPages.Paging.Metadata
import JourneyPages.Paging.Preferences
import JourneyPages.Paging.Token
import JourneyPages.Paging.Window
import JourneyPages.Proofs.Cut.Dropped
import JourneyPages.Proofs.Cut.Metadata
import JourneyPages.Proofs.Cut.PassedOver
import JourneyPages.Proofs.Debugging
import JourneyPages.Proofs.Filter.Cap
import JourneyPages.Proofs.Filter.Chain
import JourneyPages.Proofs.Filter.EndTrips
import JourneyPages.Proofs.Filter.Marking
import JourneyPages.Proofs.Filter.Maximum
import JourneyPages.Proofs.Filter.Removal
import JourneyPages.Proofs.Filter.Run
import JourneyPages.Proofs.Filter.Settings
import JourneyPages.Proofs.Filter.Shuffle
import JourneyPages.Proofs.Filter.Spared
import JourneyPages.Proofs.Filter.Verdicts
import JourneyPages.Proofs.Json
import JourneyPages.Proofs.Paging.Accepted
import JourneyPages.Proofs.Paging.Bounds
import JourneyPages.Proofs.Paging.Links
import JourneyPages.Proofs.Paging.Token
import JourneyPages.Proofs.Paging.Window
import JourneyPages.Proofs.Response
import JourneyPages.Proofs.Text
import JourneyPages.Proofs.Time.Instant
import JourneyPages.Proofs.Time.Rfc3339
import JourneyPages.Proofs.Trip.Marks
import JourneyPages.Proofs.Trip.Order
import JourneyPages.Proofs.Walk
import JourneyPages.Proofs.Walk.Backward
import JourneyPages.Proofs.Walk.Coverage
import JourneyPages.Proofs.Walk.Forward
import JourneyPages.Proofs.Walk.Neighbour
import JourneyPages.Proofs.Walk.Progress
import JourneyPages.Proofs.Walk.Return
import JourneyPages.Response
import JourneyPages.Text.Blank
import JourneyPages.Text.Digits
import JourneyPages.Time.Calendar
import JourneyPages.Time.Instant
import JourneyPages.Time.Rfc3339
import JourneyPages.Time.Span
import JourneyPages.Trip.Cost
import JourneyPages.Trip.CostLine
import JourneyPages.Trip.Itinerary
import JourneyPages.Trip.Leg
import JourneyPages.Trip.ScopedId
import JourneyPages.Trip.SortOrder
import JourneyPages.Proofs.Filter.Survivors
import JourneyPages.Proofs.Decorations
import JourneyPages.Proofs.Number.Rounding
import JourneyPages.Proofs.Number.Packing
import JourneyPages.Proofs.Number.Arithmetic
import JourneyPages.Proofs.Trip.CostLine
import JourneyPages.Proofs.Filter.Settled
import JourneyPages.Proofs.Steps
import JourneyPages.Proofs.Number.Comparison
import JourneyPages.Proofs.Filter.OtherLegs
import JourneyPages.Proofs.Filter.RoutesAndStops
import JourneyPages.Proofs.Filter.Grouping
import JourneyPages.Proofs.Filter.Similarity
import JourneyPages.Proofs.Paging.Rounding
import JourneyPages.Proofs.Paging.Range
import JourneyPages.Proofs.Checks
import JourneyPages.Proofs.Document.Checks
import JourneyPages.Proofs.Document.Validity
import JourneyPages.Proofs.Trip.ScopedId
import JourneyPages.Proofs.Filter.DearTransit
import JourneyPages.Proofs.Number.Numeral
import JourneyPages.Proofs.Trip.CostText
import JourneyPages.Proofs.Number.Significand
import JourneyPages.Proofs.Filter.AlreadyShown
import JourneyPages.Proofs.Filter.CharacteristicLegs
import JourneyPages.Proofs.Filter.Driving
