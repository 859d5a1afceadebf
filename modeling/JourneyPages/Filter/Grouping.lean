import JourneyPages.Trip.Itinerary

/-!
Classes of similar itineraries. A grouping gives each itinerary with transit a key; itineraries of
equal keys form a class, and an itinerary without a key is a class of its own.
-/
namespace JourneyPages

/-- What makes two itineraries similar. -/
inductive Grouping
  /-- The trips of the longest transit legs that cover this part of the transit distance. -/
  | trips (share : Float)
  /-- The stations of all transit legs. -/
  | stations
  /-- The routes and the stops of all transit legs. -/
  | routesAndStops

inductive GroupKey
  | trips (ids : List ScopedId)
  | stations (ids : List (Option ScopedId × Option ScopedId))
  | routesAndStops (routes stops : List ScopedId)
  deriving DecidableEq

/-- Takes legs until one at least is taken and their distances reach the limit. -/
def takeCovering (limit : Float) : Option Float → List (Leg × Nat) → List (Leg × Nat)
  | _, [] => []
  | none, x :: rest => x :: takeCovering limit (some (0.0 + x.1.distance)) rest
  | some covered, x :: rest =>
    if limit ≤ covered then []
    else x :: takeCovering limit (some (covered + x.1.distance)) rest

/-- Legs with their places, the longest first and equally long ones in order. -/
def byDistance (legs : List Leg) : List (Leg × Nat) :=
  legs.zipIdx.mergeSort fun a b => Number.Binary64.totalLE b.1.distance a.1.distance

/-- The longest transit legs that cover the given part of the transit distance, in the order of
the itinerary. -/
def characteristicLegs (share : Float) (it : Itinerary) : List Leg :=
  let legs := it.transitLegs
  let limit := share * Number.sumFloats (legs.map Leg.distance)
  let places := (takeCovering limit none (byDistance legs)).map (·.2)
  (legs.zipIdx.filter fun (_, i) => i ∈ places).map (·.1)

namespace Grouping

def keyOfLegs (g : Grouping) (it : Itinerary) : GroupKey :=
  match g with
  | trips share => .trips ((characteristicLegs share it).filterMap Leg.trip?)
  | stations =>
    .stations (it.transitLegs.map fun l => (l.origin.stationOrStop, l.destination.stationOrStop))
  | routesAndStops =>
    .routesAndStops (it.transitLegs.filterMap Leg.route?)
      (it.transitLegs.flatMap fun l => [l.origin.stop, l.destination.stop].filterMap id)

/-- The key of an itinerary; none without transit. -/
def key? (g : Grouping) (it : Itinerary) : Option GroupKey :=
  if it.hasTransit then some (g.keyOfLegs it) else none

end Grouping

/-- Splits a list into classes of equal keys, in the order of their first members. The members of
a class keep their order, and what has no key is alone. -/
def classes {α κ : Type} [DecidableEq κ] (key : α → Option κ) : List α → List (List α)
  | [] => []
  | x :: xs =>
    match key x with
    | none => [x] :: classes key xs
    | some k =>
      (x :: xs.filter fun y => key y = some k) :: classes key (xs.filter fun y => key y ≠ some k)
termination_by xs => xs.length
decreasing_by
  · simp
  · rw [List.length_unattach]
    exact Nat.lt_succ_of_le (Nat.le_trans (List.length_filter_le _ _) (by simp))

example : classes (fun n : Nat => if n = 0 then none else some (n % 2)) [1, 0, 2, 3, 0] =
    [[1, 3], [0], [2], [0]] := by decide +kernel

end JourneyPages
