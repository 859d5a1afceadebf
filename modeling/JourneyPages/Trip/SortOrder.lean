import JourneyPages.Time.Instant
import JourneyPages.Trip.Cost

/-!
Orders on itineraries. An order looks at a sort key only, and compares two keys by lists of ranks:
the first rank that differs decides, and the smaller one goes first.
-/
namespace JourneyPages

/-- What the orders look at in an itinerary. A page cursor holds one of these as the trace of an
itinerary that a later search may not find again. -/
@[ext] structure SortKey where
  start : Instant
  finish : Instant
  cost : Cost
  transfers : Nat
  streetOnly : Bool
  transfers_lt : transfers < 18446744073709551616
  deriving DecidableEq

/-- Lexicographic comparison of ranks. -/
def compareRanks : List Int → List Int → Ordering
  | a :: as, b :: bs =>
    if a < b then .lt else if b < a then .gt else compareRanks as bs
  | [], [] => .eq
  | [], _ :: _ => .lt
  | _ :: _, [] => .gt

/-- The order of a result list. Itineraries without transit are always in front; then come the
early arrivals for a search by departure time, or the late departures for a search by arrival
time. -/
inductive SortOrder
  | streetAndArrival
  | streetAndDeparture
  deriving DecidableEq, Repr

namespace SortOrder

/-- The order for a search by arrival time or by departure time. -/
def forSearch (arriveBy : Bool) : SortOrder :=
  if arriveBy then .streetAndDeparture else .streetAndArrival

/-- Whether later entries of a sorted list are later in time. -/
def ascending : SortOrder → Bool
  | .streetAndArrival => true
  | .streetAndDeparture => false

def ranks (o : SortOrder) (k : SortKey) : List Int :=
  let street : Int := if k.streetOnly then 0 else 1
  match o with
  | .streetAndArrival => [street, k.finish.ticks, k.cost.value, k.transfers, -k.start.ticks]
  | .streetAndDeparture => [street, -k.start.ticks, k.cost.value, k.transfers, k.finish.ticks]

def compare (o : SortOrder) (a b : SortKey) : Ordering := compareRanks (o.ranks a) (o.ranks b)

end SortOrder

/-- Cost first, then the number of transfers. -/
def SortKey.costRanks (k : SortKey) : List Int := [k.cost.value, k.transfers]

/-- Comparison by cost, then by the number of transfers. -/
def SortKey.compareCost (a b : SortKey) : Ordering := compareRanks a.costRanks b.costRanks

/-- One end of a list. -/
inductive ListEnd
  | head
  | tail
  deriving DecidableEq, Repr

/-- The other end. -/
def ListEnd.opposite : ListEnd → ListEnd
  | .head => .tail
  | .tail => .head

end JourneyPages
