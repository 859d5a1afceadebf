import JourneyPages.Paging.Window

/-!
What a service can choose about paging, in minutes.
-/
namespace JourneyPages

structure PagingPreferences where
  minMinutes : Int
  maxMinutes : Int
  stepMinutes : List Int
  deriving DecidableEq, Repr

namespace PagingPreferences

/-- What a service gets that chooses nothing. -/
def standard : PagingPreferences := ⟨40, 1440, [240, 120, 60, 30, 20, 10]⟩

/-- A chosen length, which must not be negative or too long. -/
def window (name : String) (minutes : Int) : Except PagingError Span :=
  match if 0 ≤ minutes then Span.minutes? minutes else none with
  | some s => .ok s
  | none => .error (.preferenceOutOfRange name minutes)

def min (p : PagingPreferences) : Except PagingError Span :=
  window "min_search_window_mins" p.minMinutes

def max (p : PagingPreferences) : Except PagingError Span :=
  window "max_search_window_mins" p.maxMinutes

def steps (p : PagingPreferences) : Except PagingError (List Span) :=
  p.stepMinutes.mapM (window "search_window_adjustments_mins")

def policy (p : PagingPreferences) : Except PagingError WindowPolicy := do
  WindowPolicy.make (← p.min) (← p.max) (← p.steps)

end PagingPreferences
end JourneyPages
