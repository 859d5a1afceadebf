import JourneyPages.Number.Fixed
import JourneyPages.Trip.CostLine

/-!
What a service can choose about filtering.
-/
namespace JourneyPages

/-- How many similar itineraries are kept. Similar are those that ride the same trips on the
longest transit legs covering `share` of the distance. -/
structure SimilarityLimit where
  share : Float
  max : Nat
  /-- Keep only the cheapest per sequence of stations first. -/
  perStations : Bool
  /-- Reject what costs more outside the shared trips than this multiple of the least such cost.
  Factors up to one turn this off. -/
  otherLegsFactor : Float

namespace SimilarityLimit

def ofShare (share : Float) (max : Nat) : SimilarityLimit := ⟨share, max, false, 0.0⟩

def withStations (s : SimilarityLimit) (factor : Float) : SimilarityLimit :=
  { s with perStations := true, otherLegsFactor := factor }

/-- The tag of the limit, with the share in percent. -/
def tag (s : SimilarityLimit) : String :=
  String.ofList ("similar-legs-filter-".toList ++ Number.fixed 0 (100.0 * s.share) ++ ['p', '-'] ++
    Text.digits s.max ++ ['x'])

/-- The tag of its reduction per sequence of stations. -/
def stationsTag (s : SimilarityLimit) : String := s.tag ++ "-group-by-all-same-stations"

instance : BEq SimilarityLimit where
  beq a b := a.share == b.share && a.max == b.max && a.perStations == b.perStations &&
    a.otherLegsFactor == b.otherLegsFactor

end SimilarityLimit

/-- How dear transit may be beside cheaper transit, with some more cost for each second between
the departures. -/
structure TransitLimit where
  line : CostLine
  relax : Float

instance : BEq TransitLimit := ⟨fun a b => a.line == b.line && a.relax == b.relax⟩

/-- What happens to rejected itineraries at the end: they are dropped, or all kept, or kept but
for those outside the search window, or kept and counted against the number requested. -/
inductive DebugProfile
  | off
  | listAll
  | limitToWindow
  | limitToCount
  deriving DecidableEq, Repr

/-- Whether rejected itineraries are shown. -/
def DebugProfile.isOn (d : DebugProfile) : Bool := d ≠ .off

structure FilterPreferences where
  similarity : List SimilarityLimit
  sameRoutesAndStops : Bool
  sameEndTrip : Bool
  /-- The least distance to ride to a bicycle park, in meters; zero turns it off. -/
  leastBicycleDistance : Float
  accessibilityScore : Bool
  transitCost : Option TransitLimit
  streetCost : Option CostLine
  dearerThanStreet : Option CostLine
  dearerThanWalk : Bool
  walkOnly : Bool
  /-- Zero turns it off. -/
  rentedBicycleRatio : Float
  /-- Zero turns it off. -/
  drivingRatio : Float
  debug : DebugProfile

namespace FilterPreferences

/-- Every optional rule off. -/
def none : FilterPreferences where
  similarity := []
  sameRoutesAndStops := false
  sameEndTrip := false
  leastBicycleDistance := 0.0
  accessibilityScore := false
  transitCost := .none
  streetCost := .none
  dearerThanStreet := .none
  dearerThanWalk := false
  walkOnly := false
  rentedBicycleRatio := 0.0
  drivingRatio := 0.0
  debug := .off

/-- What a service gets that chooses nothing. -/
def standard : FilterPreferences where
  similarity := [.ofShare 0.85 1, (SimilarityLimit.ofShare 0.68 3).withStations 2.0]
  sameRoutesAndStops := false
  sameEndTrip := false
  leastBicycleDistance := 0.0
  accessibilityScore := false
  transitCost := some ⟨⟨⟨900, by decide⟩, 1.5, by decide, by decide⟩, 0.4⟩
  streetCost := some ⟨⟨3600, by decide⟩, 2.0, by decide, by decide⟩
  dearerThanStreet := .none
  dearerThanWalk := true
  walkOnly := false
  rentedBicycleRatio := 0.0
  drivingRatio := 0.0
  debug := .off

instance : BEq FilterPreferences where
  beq a b := a.similarity == b.similarity && a.sameRoutesAndStops == b.sameRoutesAndStops &&
    a.sameEndTrip == b.sameEndTrip && a.leastBicycleDistance == b.leastBicycleDistance &&
    a.accessibilityScore == b.accessibilityScore && a.transitCost == b.transitCost &&
    a.streetCost == b.streetCost && a.dearerThanStreet == b.dearerThanStreet &&
    a.dearerThanWalk == b.dearerThanWalk && a.walkOnly == b.walkOnly &&
    a.rentedBicycleRatio == b.rentedBicycleRatio && a.drivingRatio == b.drivingRatio &&
    a.debug == b.debug

end FilterPreferences
end JourneyPages
