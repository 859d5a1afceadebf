import JourneyPages.Filter.Plan
import JourneyPages.Paging.Links
import JourneyPages.Paging.Preferences
import JourneyPages.Paging.Token

/-!
From the raw result of one search to the response for it. A response depends on its arguments
alone: whatever carries over between pages is in the cursor of the request.
-/
namespace JourneyPages

/-- Why there is no response. -/
inductive ResponseError
  | filter (e : FilterError)
  | paging (e : PagingError)
  | cursor (e : CursorError)
  | trip (e : TripError)
  | id (e : IdError)
  deriving DecidableEq

def ResponseError.message : ResponseError → String
  | filter e => e.message
  | paging e => e.message
  | cursor e => e.message
  | trip e => "invalid itinerary: " ++ e.message
  | id e => e.message

/-- What a search was asked for. -/
structure SearchRequest where
  arriveBy : Bool
  /-- The most itineraries to return. -/
  count : Nat
  /-- Where the window opens; none if transit was not searched. -/
  opens : Option Instant
  latestArrival : Option Instant
  /-- The window that was searched; none if transit was not. -/
  window : Option Span
  cursor : Option PageCursor

namespace SearchRequest

/-- The request for the page that a cursor leads to: times and window are those of the cursor. -/
def withCursor (r : SearchRequest) (c : PageCursor) : SearchRequest :=
  { r with opens := some c.opens, latestArrival := c.latestArrival, window := some c.window,
           cursor := some c }

/-- The order of the list. All pages of a search have that of the first. -/
def order (r : SearchRequest) : SortOrder :=
  match r.cursor with
  | some c => c.order
  | none => .forSearch r.arriveBy

/-- The end of the list that the cap crops. -/
def croppedEnd (r : SearchRequest) : ListEnd :=
  match r.cursor with
  | some c => c.croppedEnd
  | none => .tail

def page (r : SearchRequest) : PageRequest :=
  ⟨r.order, r.arriveBy, r.count, r.opens, r.latestArrival, r.window, r.cursor⟩

end SearchRequest

structure Preferences where
  filter : FilterPreferences
  paging : PagingPreferences

instance : BEq Preferences := ⟨fun a b => a.filter == b.filter && a.paging == b.paging⟩

/-- What a service gets that chooses nothing. -/
def Preferences.standard : Preferences := ⟨.standard, .standard⟩

structure Response where
  itineraries : List Itinerary
  /-- None without a transit search. -/
  links : Option PageLinks
  cap : Option CapReport

namespace SearchRequest

/-- What a request settles about the run: the cap, the window, what a neighbouring page has shown
already, and the decorators. -/
def settings (r : SearchRequest) (decorators : List (DecoratorSlot × Decorator)) :
    List Setting :=
  [.max r.count r.croppedEnd] ++
  (match r.opens, r.window with
    | some opens, some window => [.window opens window]
    | _, _ => []) ++
  (match r.cursor.bind PageCursor.cut with
    | some cut => [.shown cut r.croppedEnd.opposite]
    | none => []) ++
  decorators.map fun (slot, d) => .decorator slot d

/-- The run of filters for a request. -/
def plan (r : SearchRequest) (p : FilterPreferences)
    (decorators : List (DecoratorSlot × Decorator)) : Plan :=
  (Plan.ofPreferences p r.order).setAll (r.settings decorators)

/-- The response to a request, given the itineraries that its search found. The paging contract
and the paging preferences are looked at before any itinerary is. -/
def respond (r : SearchRequest) (its : List Itinerary) (p : Preferences)
    (decorators : List (DecoratorSlot × Decorator)) : Except ResponseError Response := do
  r.page.validate.mapError .paging
  let policy ← p.paging.policy.mapError .paging
  let result ← ((r.plan p.filter decorators).chain.run its).mapError .filter
  let links ← (r.page.links policy result.itineraries result.cap).mapError .paging
  pure ⟨result.itineraries, links, result.cap⟩

end SearchRequest
end JourneyPages
