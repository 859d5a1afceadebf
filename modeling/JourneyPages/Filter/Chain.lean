import JourneyPages.Filter.Preferences
import JourneyPages.Filter.Stage

/-!
A run from the raw search result to the final list: all stages in order, then one sweep that drops
the rejected itineraries or, for debugging, keeps some and says why they would have gone.
-/
namespace JourneyPages

/-- The phases of a run, in order. -/
inductive Phase
  | grouping
  | sameEndTrip
  | absolute
  | decoration
  | costLimit
  | dominance
  | paging
  | cap
  | finalSort
  | finalDecoration
  deriving DecidableEq, Repr

/-- The place of a phase in a run. -/
def Phase.rank : Phase → Nat
  | grouping => 0
  | sameEndTrip => 1
  | absolute => 2
  | decoration => 3
  | costLimit => 4
  | dominance => 5
  | paging => 6
  | cap => 7
  | finalSort => 8
  | finalDecoration => 9

/-- Stages in the order in which they run, and how the sweep ends the run. -/
structure Chain where
  stages : List (Phase × Stage)
  debug : DebugProfile
  max : Nat
  croppedEnd : ListEnd

/-- The final list, and where the cap cut it, if it did. -/
structure ChainResult where
  itineraries : List Itinerary
  cap : Option CapReport

/-- The itinerary with a notice for each of its tags. -/
def Itinerary.explain (it : Itinerary) : Itinerary :=
  it.addNotices (it.tags.map fun tag => ⟨tag, "would be removed by " ++ tag⟩)

namespace Chain

/-- The last step of a run. -/
def sweep (c : Chain) (its : List Itinerary) : List Itinerary :=
  if c.debug.isOn then
    let inWindow := if c.debug = .limitToWindow then
        its.filter fun it => "outside-search-window" ∉ it.tags
      else its
    let shown := inWindow.map Itinerary.explain
    if c.debug = .limitToCount then
      match c.croppedEnd with
      | .tail => shown.take c.max
      | .head => shown.drop (shown.length - c.max)
    else shown
  else its.filter Itinerary.isKept

def run (c : Chain) (its : List Itinerary) : Except FilterError ChainResult := do
  let p ← Stage.runAll (c.stages.map (·.2)) ⟨its, none⟩
  pure ⟨c.sweep p.itineraries, p.cap⟩

end Chain
end JourneyPages
