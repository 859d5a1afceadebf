import JourneyPages.Response

/-!
Request documents: the parameters of a search with the itineraries it found, as JSON. A document
is read first, and what it says is validated after that.
-/
namespace JourneyPages

structure PlaceDocument where
  name : String
  stop : Option String
  station : Option String
  deriving DecidableEq, Repr

/-- How a leg is travelled, as a document says it. -/
inductive ModeDocument
  | street (mode : StreetMode)
  | transit
  deriving DecidableEq, Repr

structure LegDocument where
  mode : ModeDocument
  rented : Bool
  route : Option String
  trip : Option String
  origin : PlaceDocument
  destination : PlaceDocument
  start : Instant
  finish : Instant
  distance : Float
  cost : Cost

structure ItineraryDocument where
  cost : Cost
  legs : List LegDocument

structure RequestDocument where
  arriveBy : Bool
  count : Nat
  opens : Option Instant
  latestArrival : Option Instant
  windowMinutes : Option Int
  cursor : Option String
  itineraries : List ItineraryDocument

/-! Reading -/

def PlaceDocument.ofJson? (v : Json) : Option PlaceDocument := do
  let r ← v.record? false ["name", "stop_id", "station_id"]
  some {
    name := ← r.required? "name" Json.string?
    stop := ← r.optional? "stop_id" Json.string?
    station := ← r.optional? "station_id" Json.string? }

def ModeDocument.names : List (String × ModeDocument) :=
  [("WALK", .street .walk), ("BICYCLE", .street .bicycle), ("CAR", .street .car),
    ("TRANSIT", .transit)]

def LegDocument.ofJson? (v : Json) : Option LegDocument := do
  let r ← v.record? false ["mode", "rental", "route_id", "trip_id", "from", "to", "start_time",
    "end_time", "distance_meters", "generalized_cost"]
  some {
    mode := ← r.required? "mode" (Json.named? ModeDocument.names)
    rented := ← r.defaulted? "rental" Json.bool? false
    route := ← r.optional? "route_id" Json.string?
    trip := ← r.optional? "trip_id" Json.string?
    origin := ← r.required? "from" PlaceDocument.ofJson?
    destination := ← r.required? "to" PlaceDocument.ofJson?
    start := ← r.required? "start_time" Instant.ofJson?
    finish := ← r.required? "end_time" Instant.ofJson?
    distance := ← r.required? "distance_meters" Json.float?
    cost := ← r.defaulted? "generalized_cost" Cost.ofJson? Cost.zero }

def ItineraryDocument.ofJson? (v : Json) : Option ItineraryDocument := do
  let r ← v.record? false ["generalized_cost", "legs"]
  some {
    cost := ← r.required? "generalized_cost" Cost.ofJson?
    legs := ← r.required? "legs" (Json.list? LegDocument.ofJson?) }

def RequestDocument.ofJson? (v : Json) : Option RequestDocument := do
  let r ← v.record? false ["arrive_by", "num_itineraries", "earliest_departure_time",
    "latest_arrival_time", "search_window_mins", "page_cursor", "itineraries"]
  some {
    arriveBy := ← r.defaulted? "arrive_by" Json.bool? false
    count := ← r.defaulted? "num_itineraries" Json.count? 50
    opens := ← r.optional? "earliest_departure_time" Instant.ofJson?
    latestArrival := ← r.optional? "latest_arrival_time" Instant.ofJson?
    windowMinutes := ← r.optional? "search_window_mins" Json.int64?
    cursor := ← r.optional? "page_cursor" Json.string?
    itineraries := ← r.required? "itineraries" (Json.list? ItineraryDocument.ofJson?) }

/-! Validation -/

/-- The identifier in a field, if the field has one. -/
def readId? : Option String → Except ResponseError (Option ScopedId)
  | none => .ok none
  | some s => (ScopedId.read s).map some |>.mapError .id

def PlaceDocument.place (d : PlaceDocument) : Except ResponseError Place := do
  let stop ← readId? d.stop
  let station ← readId? d.station
  pure ⟨d.name, stop, station⟩

/-- A transit leg needs its route and its trip; the identifiers of a street leg are not looked
at. -/
def LegDocument.travel (d : LegDocument) : Except ResponseError Travel :=
  match d.mode with
  | .street mode => .ok (.street mode d.rented)
  | .transit => do
    let route ← readId? d.route
    let trip ← readId? d.trip
    match route, trip with
    | some route, some trip => pure (.transit route trip)
    | _, _ => throw (.trip .legWithoutTrip)

def LegDocument.leg (d : LegDocument) : Except ResponseError Leg := do
  let travel ← d.travel
  let origin ← d.origin.place
  let destination ← d.destination.place
  (Leg.make travel origin destination d.start d.finish d.distance d.cost).mapError .trip

def ItineraryDocument.itinerary (d : ItineraryDocument) : Except ResponseError Itinerary := do
  let legs ← d.legs.mapM LegDocument.leg
  (Itinerary.make legs d.cost).mapError .trip

namespace RequestDocument

/-- The window of a document, which must not be negative or too long. -/
def window (d : RequestDocument) : Except ResponseError (Option Span) :=
  match d.windowMinutes with
  | none => .ok none
  | some minutes =>
    match if 0 ≤ minutes then Span.minutes? minutes else none with
    | some window => .ok (some window)
    | none => .error (.paging .windowOutOfRange)

/-- The request of a document. A cursor's times and window take the place of the document's. -/
def request (d : RequestDocument) : Except ResponseError SearchRequest := do
  let window ← d.window
  let r : SearchRequest := ⟨d.arriveBy, d.count, d.opens, d.latestArrival, window, none⟩
  match d.cursor with
  | none => pure r
  | some token => do
    let cursor ← (PageCursor.decode token).mapError .cursor
    pure (r.withCursor cursor)

/-- The request and the itineraries of a document, or what is wrong with it first: the window,
then the cursor, then the itineraries in order. -/
def parts (d : RequestDocument) : Except ResponseError (SearchRequest × List Itinerary) := do
  let request ← d.request
  let itineraries ← d.itineraries.mapM ItineraryDocument.itinerary
  pure (request, itineraries)

end RequestDocument
end JourneyPages
