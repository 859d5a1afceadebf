import JourneyPages.Trip.Itinerary

/-!
The rules by which itineraries are rejected. A rule looks at a list of itineraries, none of them
rejected yet, and gives a verdict on each; it never removes or reorders any.
-/
namespace JourneyPages

/-- A rule for rejecting itineraries. -/
inductive Flagger
  /-- Transit that costs more than a cheaper transit itinerary allows: the limit at its cost, and
  some cost more for each second between the departures. -/
  | transitCost (limit : CostLine) (relax : Float)
  /-- Street only, and dearer than the limit at the least cost of all. -/
  | streetCost (limit : CostLine)
  /-- Transit dearer than the limit at the least cost of the street-only itineraries. -/
  | dearerThanStreet (limit : CostLine)
  /-- Transit dearer than the cheapest walk. -/
  | dearerThanWalk
  /-- Walking all the way. -/
  | walkOnly
  /-- A rented bicycle for less than this part of the distance. -/
  | littleRentedBicycle (ratio : Float)
  /-- Street only, with driving for less than this part of the time. -/
  | littleDriving (ratio : Float)
  /-- Transit with a street leg in the given mode shorter than the least distance. -/
  | shortStreetLeg (least : Float) (mode : StreetMode)
  /-- Everything behind the first `count`. -/
  | beyondCount (tag : String) (count : Nat)
  /-- Transit that departs before the window opens, or when it has closed. -/
  | outsideWindow (opens : Instant) (window : Span)
  /-- Everything on the given side of a page cut, the cut included. -/
  | alreadyShown (order : SortOrder) (side : ListEnd) (cut : SortKey)
  /-- A first or last trip that is also the first or last trip of a survivor in front. -/
  | sameEndTrip
  /-- More cost outside the trips that all share than this multiple of the least such cost. -/
  | dearOtherLegs (factor : Float)

namespace Flagger

/-- The tag that a rule puts on what it rejects. -/
def tag : Flagger → String
  | transitCost .. => "transit-cost-filter"
  | streetCost .. => "non-transit-cost-filter"
  | dearerThanStreet .. => "transit-vs-street-filter"
  | dearerThanWalk => "transit-vs-walk-filter"
  | walkOnly => "walk-all-the-way-filter"
  | littleRentedBicycle .. => "bikerental-vs-walk-filter"
  | littleDriving .. => "park-and-ride-vs-walk-filter"
  | shortStreetLeg .. => "short-street-leg-filter"
  | beyondCount tag _ => tag
  | outsideWindow .. => "outside-search-window"
  | alreadyShown .. => "paging-filter"
  | sameEndTrip => "same-first-or-last-trip-filter"
  | dearOtherLegs .. => "other-than-same-legs-max-generalized-cost-filter"

/-! Rules that look at one itinerary at a time -/

/-- The distance on rented bicycles. -/
def rentedBicycleDistance (it : Itinerary) : Float :=
  Number.sumFloats ((it.legs.filter fun l => l.isRented && l.isBy .bicycle).map Leg.distance)

/-- The whole seconds of driving, leg by leg. -/
def drivingSeconds (it : Itinerary) : Int :=
  ((it.legs.filter (Leg.isBy .car)).map fun l => l.duration.wholeSeconds).foldl (· + ·) 0

/-- Whether a departure is outside the window. A window that would close after the last instant
there is never closes. -/
def isOutside (opens : Instant) (window : Span) (t : Instant) : Bool :=
  decide (t < opens) || match opens.add? window with
    | some closes => decide (closes ≤ t)
    | none => false

/-- The verdict on one itinerary, whatever the others are. Rules that compare itineraries reject
none by itself. -/
def rejectsAlone : Flagger → Itinerary → Bool
  | walkOnly, it => it.isWalkOnly
  | littleRentedBicycle ratio, it =>
    let rented := rentedBicycleDistance it
    decide (0.0 < rented) && decide (rented / it.distance < ratio)
  | littleDriving ratio, it =>
    let driving := drivingSeconds it
    it.isStreetOnly && decide (0 < driving) &&
      decide (Number.floatOfInt driving / Number.floatOfInt it.duration.wholeSeconds < ratio)
  | shortStreetLeg least mode, it =>
    it.hasTransit && it.legs.any fun l => l.isBy mode && decide (l.distance < least)
  | outsideWindow opens window, it => it.hasTransit && isOutside opens window it.start
  | alreadyShown order side cut, it =>
    match side with
    | .head => (order.compare it.key cut).isLE
    | .tail => (order.compare it.key cut).isGE
  | _, _ => false

/-! Rules that compare itineraries -/

/-- The most that `other` may cost beside `cheaper`. -/
def transitLimit (limit : CostLine) (relax : Float) (cheaper other : Itinerary) : Cost :=
  let apart := (other.start.since cheaper.start).wholeSeconds.natAbs
  limit.apply cheaper.cost + Cost.ofFloat (Number.floatOfInt apart * relax)

/-- Whether `it` is dearer than its limit beside a cheaper transit itinerary of the list. -/
def isDearTransit (limit : CostLine) (relax : Float) (its : List Itinerary) (it : Itinerary) :
    Bool :=
  it.hasTransit && its.any fun cheaper => cheaper.hasTransit && decide (cheaper.cost < it.cost) &&
    decide (transitLimit limit relax cheaper it < it.cost)

/-- The least cost of the itineraries of one kind. -/
def leastCost? (kind : Itinerary → Bool) (its : List Itinerary) : Option Cost :=
  Cost.least? ((its.filter kind).map Itinerary.cost)

/-- Whether a cost is above a limit, if there is one. -/
def isAbove (limit : Option Cost) (c : Cost) : Bool := limit.any fun l => decide (l < c)

def tripsOf (it : Itinerary) : List ScopedId := it.transitLegs.filterMap Leg.trip?

/-- The trips that all itineraries of a list ride. -/
def sharedTrips : List Itinerary → List ScopedId
  | [] => []
  | it :: rest => (tripsOf it).filter fun trip => rest.all fun other => trip ∈ tripsOf other

/-- The cost of an itinerary outside the given trips. -/
def costOutside (trips : List ScopedId) (it : Itinerary) : Cost :=
  it.cost - Cost.sum ((it.transitLegs.filter fun l => l.trip?.any (· ∈ trips)).map Leg.cost)

def otherCosts (its : List Itinerary) : List Cost := its.map (costOutside (sharedTrips its))

/-- One scan with the first and last trips of the survivors so far. -/
def endTripVerdicts (firsts lasts : List ScopedId) : List Itinerary → List Bool
  | [] => []
  | it :: rest =>
    match it.endTrips? with
    | none => false :: endTripVerdicts firsts lasts rest
    | some (first, last) =>
      if first ∈ firsts ∨ last ∈ lasts then true :: endTripVerdicts firsts lasts rest
      else false :: endTripVerdicts (first :: firsts) (last :: lasts) rest

/-- The verdict on each itinerary of a list, in the order of the list. -/
def verdicts (f : Flagger) (its : List Itinerary) : List Bool :=
  match f with
  | transitCost limit relax => its.map (isDearTransit limit relax its)
  | streetCost limit =>
    let least := (leastCost? (fun _ => true) its).map limit.apply
    its.map fun it => it.isStreetOnly && isAbove least it.cost
  | dearerThanStreet limit =>
    let least := (leastCost? Itinerary.isStreetOnly its).map limit.apply
    its.map fun it => it.hasTransit && isAbove least it.cost
  | dearerThanWalk =>
    let least := leastCost? Itinerary.isWalkOnly its
    its.map fun it => it.hasTransit && isAbove least it.cost
  | beyondCount _ count => its.zipIdx.map fun (_, i) => decide (count ≤ i)
  | sameEndTrip => endTripVerdicts [] [] its
  | dearOtherLegs factor =>
    let costs := otherCosts its
    let limit := (Cost.least? costs).map fun least => least.toFloat * factor
    costs.map fun c => limit.any fun l => decide (l < c.toFloat)
  | f => its.map f.rejectsAlone

theorem length_endTripVerdicts (firsts lasts : List ScopedId) (its : List Itinerary) :
    (endTripVerdicts firsts lasts its).length = its.length := by
  fun_induction endTripVerdicts firsts lasts its <;> simp_all

@[simp] theorem length_verdicts (f : Flagger) (its : List Itinerary) :
    (f.verdicts its).length = its.length := by
  cases f <;> simp [verdicts, length_endTripVerdicts, otherCosts]

end Flagger

/-- Puts the tag on the kept itineraries for which the verdict is against them. The verdicts are
on the kept itineraries only, in their order; the others are passed over. -/
def rejectBy (tag : String) : List Bool → List Itinerary → List Itinerary
  | _, [] => []
  | verdicts, it :: rest =>
    if it.isKept then
      match verdicts with
      | true :: verdicts => it.reject tag :: rejectBy tag verdicts rest
      | false :: verdicts => it :: rejectBy tag verdicts rest
      | [] => it :: rest
    else it :: rejectBy tag verdicts rest

/-- Lets a rule reject among the itineraries that are still kept. -/
def Flagger.run (f : Flagger) (its : List Itinerary) : List Itinerary :=
  rejectBy f.tag (f.verdicts (its.filter Itinerary.isKept)) its

end JourneyPages
