import JourneyPages.Time.Instant
import JourneyPages.Trip.SortOrder

/-!
How long the window of the next search is: shorter after a page that was cut, longer after one
that came up short, in whole minutes between two bounds.
-/
namespace JourneyPages

/-- Why a page cannot be linked to its neighbours, or paging cannot start. -/
inductive PagingError
  | missingDeparture
  | noTransitSearch
  | invertedBounds (min max : Span)
  | preferenceOutOfRange (name : String) (minutes : Int)
  | windowOutOfRange
  deriving DecidableEq

def PagingError.message : PagingError → String
  | missingDeparture =>
    "a search window was used, but the earliest departure time is missing"
  | noTransitSearch => "paging requested, but no transit search was performed"
  | invertedBounds min max => "min search window " ++ String.ofList min.text ++
    " is larger than max search window " ++ String.ofList max.text
  | preferenceOutOfRange name minutes => "paging preference " ++ name ++ " = " ++
    String.ofList (Text.integer minutes) ++ " minutes is out of range"
  | windowOutOfRange => "search window is negative or too large for the requested time"

/-- The bounds of a window, and by how much it grows after a search that found few itineraries:
the entry at the number found, or else the last one. -/
structure WindowPolicy where
  min : Span
  max : Span
  steps : List Span
  min_le_max : min ≤ max

namespace WindowPolicy

def make (min max : Span) (steps : List Span) : Except PagingError WindowPolicy :=
  if h : min ≤ max then .ok ⟨min, max, steps, h⟩ else .error (.invertedBounds min max)

/-- A window in whole minutes, a started one counting as a whole by its full seconds, moved into
the bounds. What is too long to be rounded is beyond them. -/
def fit (p : WindowPolicy) (window : Span) : Span :=
  let seconds := window.wholeSeconds
  let minutes := seconds.tdiv 60 + if 0 < seconds.tmod 60 then 1 else 0
  match Span.minutes? minutes with
  | some rounded => rounded.clamp p.min p.max
  | none => p.max

/-- The window after a page that was cut: the part of the last one that was shown, from its start
to the cut or from the cut to its end. `lost` is the end of the window, in time, that lost
itineraries. -/
def shrink (p : WindowPolicy) (opens : Instant) (used : Span) (cut : Instant) (lost : ListEnd) :
    Span :=
  match lost with
  | .tail => p.fit (cut.since opens)
  | .head =>
    match (opens.since cut).add? used with
    | some shown => p.fit shown
    | none => p.max

/-- The step for a number of itineraries found. -/
def step (p : WindowPolicy) (found : Nat) : Span :=
  (p.steps[found]? <|> p.steps.getLast?).getD Span.zero

/-- The window after a page that was not cut: as it was if enough itineraries were found, else
longer by a step. -/
def grow (p : WindowPolicy) (used : Span) (requested found : Nat) : Span :=
  if p.max ≤ used then p.max
  else if requested ≤ found then p.fit used
  else match used.add? (p.step found) with
    | some longer => p.fit longer
    | none => p.max

end WindowPolicy
end JourneyPages
