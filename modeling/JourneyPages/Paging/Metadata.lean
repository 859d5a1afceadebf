import JourneyPages.Paging.Cursor

/-!
What a response says about the time it searched, for callers that do not follow cursors.
-/
namespace JourneyPages

/-- The window used, and the times to search at for earlier and for later itineraries. -/
@[ext] structure SearchMetadata where
  window : Span
  previous : Instant
  next : Instant
  deriving DecidableEq

namespace SearchMetadata
open PageLinker (orOutOfRange)

/-- For a search by departure time: the later search starts a minute behind the cut, or where the
window ended. -/
def forDeparture (window : Span) (opens : Instant) (cut : Option Instant) :
    Except PagingError SearchMetadata := do
  let previous ← orOutOfRange (opens.sub? window)
  let next ← orOutOfRange (match cut with
    | some t => t.add? Span.minute
    | none => opens.add? window)
  pure ⟨window, previous, next⟩

/-- For a search by arrival time: the earlier search starts a window before the minute behind the
cut, or before the window began. -/
def forArrival (window : Span) (opens : Instant) (cut : Option Instant) :
    Except PagingError SearchMetadata := do
  let ends := match cut with
    | some t => t.add? Span.minute
    | none => some opens
  let previous ← orOutOfRange (ends.bind (·.sub? window))
  let next ← orOutOfRange (opens.add? window)
  pure ⟨window, previous, next⟩

end SearchMetadata
end JourneyPages
