import JourneyPages.Trip.Itinerary

/-!
The cap on the number of results. It counts the kept itineraries in sort order, rejects those
beyond the maximum at one end of that order, and reports where it cut. The list itself stays in
its order.
-/
namespace JourneyPages

/-- Where a cap cut and how much. The cut is the key of the itinerary that was kept next to the
end that lost some. -/
structure CapReport where
  cut : SortKey
  removedFromHead : Nat
  removedFromTail : Nat
  croppedEnd : ListEnd
  deriving DecidableEq

def CapReport.removed (r : CapReport) : Nat := r.removedFromHead + r.removedFromTail

namespace Cap

def tag : String := "number-of-itineraries-filter"

/-- The kept itineraries with their places in the list, in sort order. -/
def candidates (order : SortOrder) (its : List Itinerary) : List (Itinerary × Nat) :=
  (its.zipIdx.filter (·.1.isKept)).mergeSort fun a b => (order.compare a.1.key b.1.key).isLE

/-- What a crop at one end leaves of a list, after what it takes off. -/
def crop (max : Nat) (croppedEnd : ListEnd) {α : Type} (xs : List α) : List α × List α :=
  match croppedEnd with
  | .tail => (xs.drop max, xs.take max)
  | .head => (xs.take (xs.length - max), xs.drop (xs.length - max))

/-- The kept entry next to the end that was cropped. -/
def boundary? (croppedEnd : ListEnd) {α : Type} (kept : List α) : Option α :=
  match croppedEnd with
  | .tail => kept.getLast?
  | .head => kept.head?

def report (croppedEnd : ListEnd) (removed : Nat) (cut : Itinerary) : CapReport where
  cut := cut.key
  removedFromHead := if croppedEnd = .head then removed else 0
  removedFromTail := if croppedEnd = .tail then removed else 0
  croppedEnd := croppedEnd

/-- The list with the itineraries beyond the cap rejected, and the report if any were. Where
nothing at all is kept there is no cut to report. -/
def run (max : Nat) (croppedEnd : ListEnd) (order : SortOrder) (its : List Itinerary) :
    List Itinerary × Option CapReport :=
  let candidates := candidates order its
  if candidates.length ≤ max then (its, none)
  else
    let (dropped, kept) := crop max croppedEnd candidates
    let places := dropped.map (·.2)
    (its.zipIdx.map fun (it, i) => if i ∈ places then it.reject tag else it,
      (boundary? croppedEnd kept).map fun (it, _) => report croppedEnd dropped.length it)

end Cap
end JourneyPages
