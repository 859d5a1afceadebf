import JourneyPages.Time.Instant
import JourneyPages.Trip.CostLine
import JourneyPages.Trip.ScopedId

/-!
The legs of an itinerary: one ride on a transit trip, or one stretch on the street.
-/
namespace JourneyPages

/-- Ways to travel on the street. -/
inductive StreetMode
  | walk
  | bicycle
  | car
  deriving DecidableEq, Repr

/-- How a leg is travelled. -/
inductive Travel
  | street (mode : StreetMode) (rented : Bool)
  | transit (route trip : ScopedId)
  deriving DecidableEq

/-- Where a leg starts or ends. A stop may belong to a station. -/
structure Place where
  name : String
  stop : Option ScopedId
  station : Option ScopedId
  deriving DecidableEq

/-- The station of a place, or else its stop: what is the same for all platforms of a station. -/
def Place.stationOrStop (p : Place) : Option ScopedId := p.station <|> p.stop

/-- Why parts do not make a leg or an itinerary. -/
inductive TripError
  | legEndsBeforeStart
  | legDistance
  | legWithoutTrip
  | noLegs
  /-- The leg with this number, counted from 0, starts before the one in front of it ends. -/
  | legTooEarly (index : Nat)
  deriving DecidableEq, Repr

def TripError.message : TripError → String
  | legEndsBeforeStart => "invalid leg: leg ends before it starts"
  | legDistance => "invalid leg: distance must be a finite, non-negative number"
  | legWithoutTrip => "invalid leg: transit leg needs a route_id and a trip_id"
  | noLegs => "itinerary must have at least one leg"
  | legTooEarly index =>
    "leg " ++ String.ofList (Text.digits index) ++ " starts before the previous leg ends"

/-- A leg. The distance is in meters, and the cost is the part of the itinerary's cost that
arises on this leg. -/
structure Leg where
  travel : Travel
  origin : Place
  destination : Place
  start : Instant
  finish : Instant
  distance : Float
  cost : Cost
  start_le_finish : start ≤ finish
  distance_isMeasure : isMeasure distance = true

namespace Leg

def make (travel : Travel) (origin destination : Place) (start finish : Instant)
    (distance : Float) (cost : Cost) : Except TripError Leg :=
  if ht : start ≤ finish then
    if hd : isMeasure distance = true then
      .ok ⟨travel, origin, destination, start, finish, distance, cost, ht, hd⟩
    else .error .legDistance
  else .error .legEndsBeforeStart

def duration (l : Leg) : Span := l.finish.since l.start

def streetMode? (l : Leg) : Option StreetMode :=
  match l.travel with
  | .street mode _ => some mode
  | .transit .. => none

def trip? (l : Leg) : Option ScopedId :=
  match l.travel with
  | .street .. => none
  | .transit _ trip => some trip

def route? (l : Leg) : Option ScopedId :=
  match l.travel with
  | .street .. => none
  | .transit route _ => some route

def isTransit (l : Leg) : Bool := l.trip?.isSome

def isRented (l : Leg) : Bool :=
  match l.travel with
  | .street _ rented => rented
  | .transit .. => false

/-- Whether the leg is on the street in the given mode. -/
def isBy (mode : StreetMode) (l : Leg) : Bool := l.streetMode? == some mode

end Leg
end JourneyPages
