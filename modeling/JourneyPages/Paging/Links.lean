import JourneyPages.Filter.Cap
import JourneyPages.Paging.Metadata

/-!
From one page to its neighbours: the cursors, the metadata and the next window of a response,
computed from its request, its list and the report of the cap alone.
-/
namespace JourneyPages

/-- What paging has to know about a request. -/
structure PageRequest where
  order : SortOrder
  arriveBy : Bool
  /-- How many itineraries are asked for. -/
  count : Nat
  opens : Option Instant
  latestArrival : Option Instant
  /-- The window that was searched; none without a transit search. -/
  window : Option Span
  cursor : Option PageCursor

/-- How a page is linked to its neighbours. -/
@[ext] structure PageLinks where
  window : Span
  next : PageCursor
  previous : PageCursor
  metadata : SearchMetadata
  deriving DecidableEq

namespace PageRequest

/-- The direction of the page. A first page goes the way its list is sorted in time. -/
def direction (r : PageRequest) : PageDirection :=
  match r.cursor with
  | some c => c.direction
  | none => if r.order.ascending then .next else .previous

/-- The order of the first search. -/
def firstOrder (r : PageRequest) : SortOrder :=
  match r.cursor with
  | some c => c.order
  | none => r.order

/-- Refuses a cursor without a transit search, a window without a start, and a window that is
negative or reaches past the instants that there are. -/
def validate (r : PageRequest) : Except PagingError Unit :=
  match r.window, r.opens with
  | none, _ => if r.cursor.isSome then .error .noTransitSearch else .ok ()
  | some _, none => .error .missingDeparture
  | some window, some opens =>
    if window < Span.zero ∨ PageCursor.reachable opens window = false then
      .error .windowOutOfRange
    else .ok ()

/-- The end in time that loses itineraries when a page in this direction is cut. -/
def lostEnd : PageDirection → ListEnd
  | .next => .tail
  | .previous => .head

/-- The number of kept transit itineraries in a list. -/
def transitFound (its : List Itinerary) : Nat :=
  its.countP fun it => it.isKept && it.hasTransit

/-- The window for the next search. -/
def nextWindow (r : PageRequest) (policy : WindowPolicy) (opens : Instant) (used : Span)
    (its : List Itinerary) : Option CapReport → Span
  | some report => policy.shrink opens used report.cut.start (lostEnd r.direction)
  | none => policy.grow used r.count (transitFound its)

/-- The links of a page, none without a transit search. -/
def links (r : PageRequest) (policy : WindowPolicy) (its : List Itinerary)
    (report : Option CapReport) : Except PagingError (Option PageLinks) := do
  r.validate
  match r.window with
  | none => pure none
  | some used =>
    match r.opens with
    | none => throw .missingDeparture
    | some opens =>
      let window := r.nextWindow policy opens used its report
      let cut := report.map CapReport.cut
      let linker : PageLinker :=
        ⟨r.firstOrder, r.direction, opens, r.latestArrival, used, window, cut⟩
      let metadata ← if r.arriveBy then SearchMetadata.forArrival used opens (cut.map SortKey.start)
        else SearchMetadata.forDeparture used opens (cut.map SortKey.start)
      let next ← linker.next
      let previous ← linker.previous
      pure (some ⟨window, next, previous, metadata⟩)

end PageRequest
end JourneyPages
