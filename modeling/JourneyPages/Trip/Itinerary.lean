import JourneyPages.Json.Value
import JourneyPages.Trip.Leg
import JourneyPages.Trip.SortOrder

/-!
Itineraries: one way each to make a journey, with the marks that filtering leaves on it.

An itinerary is never removed while filters run. A filter puts its tag on what it rejects, and
what carries a tag at the end of the run is dropped or, on request, shown with its tags.
-/
namespace JourneyPages

/-- A remark on why an itinerary is shown that would have been dropped. -/
structure Notice where
  tag : String
  text : String
  deriving DecidableEq, Repr

/-- The number of the first leg that starts before the one in front of it ends, the first leg of
all having number `i`. -/
def firstTooEarly? (i : Nat) : List Leg → Option Nat
  | a :: b :: rest =>
    if a.finish ≤ b.start then firstTooEarly? (i + 1) (b :: rest) else some (i + 1)
  | _ => none

theorem pairwise_of_firstTooEarly? {i : Nat} {legs : List Leg} (h : firstTooEarly? i legs = none) :
    legs.Pairwise fun a b => a.finish ≤ b.start := by
  induction legs generalizing i with
  | nil => exact .nil
  | cons a rest ih =>
    cases rest with
    | nil => simp
    | cons b rest =>
      simp only [firstTooEarly?] at h
      split at h
      case isFalse => simp at h
      have hp := ih h
      refine List.pairwise_cons.mpr ⟨fun c hc => ?_, hp⟩
      rcases List.mem_cons.mp hc with rfl | hc
      · assumption
      · have hb := (List.pairwise_cons.mp hp).1 c hc
        have hs := b.start_le_finish
        rw [Instant.le_iff] at *
        omega

/-- An itinerary. `tags` are those of the filters that rejected it, in order; it is kept as long
as there are none. Decorations are sorted by their keys. -/
structure Itinerary where
  legs : List Leg
  cost : Cost
  tags : List String
  notices : List Notice
  decorations : List (String × Json)
  legs_ne_nil : legs ≠ []
  legs_inOrder : legs.Pairwise fun a b => a.finish ≤ b.start

namespace Itinerary

/-- An itinerary fresh from the search. -/
def make (legs : List Leg) (cost : Cost) : Except TripError Itinerary :=
  if hn : legs = [] then .error .noLegs
  else match ht : firstTooEarly? 0 legs with
    | some i => .error (.legTooEarly i)
    | none => .ok ⟨legs, cost, [], [], [], hn, pairwise_of_firstTooEarly? ht⟩

def start (it : Itinerary) : Instant := (it.legs.head it.legs_ne_nil).start
def finish (it : Itinerary) : Instant := (it.legs.getLast it.legs_ne_nil).finish
def duration (it : Itinerary) : Span := it.finish.since it.start

/-- The sum of the legs' distances from first to last. -/
def distance (it : Itinerary) : Float := Number.sumFloats (it.legs.map Leg.distance)

def transitLegs (it : Itinerary) : List Leg := it.legs.filter Leg.isTransit
def hasTransit (it : Itinerary) : Bool := it.legs.any Leg.isTransit
def isStreetOnly (it : Itinerary) : Bool := !it.hasTransit
def isWalkOnly (it : Itinerary) : Bool := it.legs.all (Leg.isBy .walk)

/-- One less than the number of transit legs, or zero. Counts end at 64 bits. -/
def transfers (it : Itinerary) : Nat := min (it.transitLegs.length - 1) 18446744073709551615

/-- The trips of the first and the last transit leg. -/
def endTrips? (it : Itinerary) : Option (ScopedId × ScopedId) := do
  some (← (← it.transitLegs.head?).trip?, ← (← it.transitLegs.getLast?).trip?)

def key (it : Itinerary) : SortKey where
  start := it.start
  finish := it.finish
  cost := it.cost
  transfers := it.transfers
  streetOnly := it.isStreetOnly
  transfers_lt := by unfold transfers; omega

def isKept (it : Itinerary) : Bool := it.tags.isEmpty

/-- Rejects the itinerary in the name of `tag`. A tag is put on only once. -/
def reject (it : Itinerary) (tag : String) : Itinerary :=
  if tag ∈ it.tags then it else { it with tags := it.tags ++ [tag] }

/-- Takes the given tags off. -/
def reinstate (it : Itinerary) (tags : List String) : Itinerary :=
  { it with tags := it.tags.filter (· ∉ tags) }

def addNotices (it : Itinerary) (notices : List Notice) : Itinerary :=
  { it with notices := it.notices ++ notices }

/-- Puts a value into a list sorted by keys, in place of the one that has the key already. -/
def insertSorted (key : String) (value : Json) : List (String × Json) → List (String × Json)
  | [] => [(key, value)]
  | (k, v) :: rest =>
    if key < k then (key, value) :: (k, v) :: rest
    else if key = k then (key, value) :: rest
    else (k, v) :: insertSorted key value rest

/-- Attaches a value under a key. -/
def decorate (it : Itinerary) (key : String) (value : Json) : Itinerary :=
  { it with decorations := insertSorted key value it.decorations }

def decoration? (it : Itinerary) (key : String) : Option Json := it.decorations.lookup key

end Itinerary

/-- The list sorted by ranks of the sort keys. Entries of equal ranks keep their order. -/
def sortByRanks (ranks : SortKey → List Int) (its : List Itinerary) : List Itinerary :=
  its.mergeSort fun a b => (compareRanks (ranks a.key) (ranks b.key)).isLE

end JourneyPages
