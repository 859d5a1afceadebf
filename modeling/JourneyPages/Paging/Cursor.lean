import JourneyPages.Paging.Window

/-!
Page cursors: all that a later request needs to search a neighbouring page. Nothing about a page
is remembered elsewhere.
-/
namespace JourneyPages

/-- Which neighbour of a page: the one later in time, or the one earlier. -/
inductive PageDirection
  | next
  | previous
  deriving DecidableEq, Repr

def PageDirection.isNext (d : PageDirection) : Bool := d = .next

@[ext] structure PageCursor where
  direction : PageDirection
  /-- The order of the first search, which all its pages keep. -/
  order : SortOrder
  /-- Where the window to search opens. -/
  opens : Instant
  latestArrival : Option Instant
  window : Span
  /-- Where the page was cut that the cursor comes from. -/
  cut : Option SortKey
  deriving DecidableEq

namespace PageCursor

/-- The end of the list that is cropped when the page is searched: the one that lies farther from
the page the cursor comes from. -/
def croppedEnd (c : PageCursor) : ListEnd :=
  if c.direction.isNext = c.order.ascending then .tail else .head

/-- Whether the window reaches only to instants that there are, ahead of its start and as far
behind it. -/
def reachable (opens : Instant) (window : Span) : Bool :=
  (opens.add? window).isSome && (opens.sub? window).isSome

end PageCursor

/-- How the cursors of a page follow from it. -/
structure PageLinker where
  order : SortOrder
  direction : PageDirection
  opens : Instant
  latestArrival : Option Instant
  used : Span
  window : Span
  cut : Option SortKey

namespace PageLinker

def cursor (l : PageLinker) (direction : PageDirection) (opens : Instant)
    (latestArrival : Option Instant) : PageCursor :=
  ⟨direction, l.order, opens, latestArrival, l.window, l.cut⟩

def orOutOfRange {α : Type} : Option α → Except PagingError α
  | some x => .ok x
  | none => .error .windowOutOfRange

/-- Where a page that was cut at its later end was cut, and likewise for its earlier end. -/
def cutBy (l : PageLinker) (direction : PageDirection) : Option SortKey :=
  if l.direction = direction then l.cut else none

/-- The later page goes on at the cut, or where the window ended. -/
def next (l : PageLinker) : Except PagingError PageCursor := do
  let opens ← match l.cutBy .next with
    | some cut => pure cut.start
    | none => orOutOfRange (l.opens.add? l.used)
  pure (l.cursor .next opens none)

/-- The window of the earlier page ends where this page's window began, or a minute behind the
cut. -/
def previous (l : PageLinker) : Except PagingError PageCursor := do
  let ends ← match l.cutBy .previous with
    | some cut => orOutOfRange (cut.start.add? Span.minute)
    | none => pure l.opens
  let opens ← orOutOfRange (ends.sub? l.window)
  pure (l.cursor .previous opens l.latestArrival)

end PageLinker
end JourneyPages
