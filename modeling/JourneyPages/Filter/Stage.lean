import JourneyPages.Filter.Cap
import JourneyPages.Filter.Flagger
import JourneyPages.Filter.Grouping
import JourneyPages.Text.Digits

/-!
The stages of a filter run. A stage gets the whole list, the rejected itineraries included, and
gives it back: only decorators can fail, and none may change the length of the list.
-/
namespace JourneyPages

/-- Something that adds information to itineraries. It may fail for reasons of its own. -/
structure Decorator where
  name : String
  decorate : List Itinerary → Except String (List Itinerary)

/-- Why a run ends without a result. -/
inductive FilterError
  | decoratorFailed (name reason : String)
  | decoratorChangedCount (name : String) (before after : Nat)
  deriving DecidableEq, Repr

def FilterError.message : FilterError → String
  | decoratorFailed name reason => "decorator " ++ name ++ " failed: " ++ reason
  | decoratorChangedCount name before after =>
    "decorator " ++ name ++ " changed the number of itineraries from " ++
      String.ofList (Text.digits before) ++ " to " ++ String.ofList (Text.digits after)

def Decorator.run (d : Decorator) (its : List Itinerary) :
    Except FilterError (List Itinerary) :=
  match d.decorate its with
  | .error reason => .error (.decoratorFailed d.name reason)
  | .ok decorated =>
    if decorated.length = its.length then .ok decorated
    else .error (.decoratorChangedCount d.name its.length decorated.length)

/-- How a stage sorts: by cost, or in the order of results. -/
inductive Ranking
  | cost
  | results (order : SortOrder)
  deriving DecidableEq, Repr

def Ranking.ranks : Ranking → SortKey → List Int
  | cost => SortKey.costRanks
  | results order => order.ranks

/-- If all are rejected, reinstates the one with the fewest transfers, then the least cost, out of
those that carry no other tags than the given ones. -/
def reinstateOne (tags : List String) (its : List Itinerary) : List Itinerary :=
  if its.any Itinerary.isKept then its
  else
    let candidates := its.zipIdx.filter fun (it, _) => it.tags.all (· ∈ tags)
    match candidates.mergeSort fun a b => (compareRanks (ranks a.1) (ranks b.1)).isLE with
    | [] => its
    | (_, best) :: _ => its.zipIdx.map fun (it, i) => if i = best then it.reinstate tags else it
where
  ranks (it : Itinerary) : List Int := [it.transfers, it.cost.value]

/-- One stage of a run. -/
inductive Stage
  | reject (flagger : Flagger)
  | sort (ranking : Ranking)
  | cap (max : Nat) (croppedEnd : ListEnd) (order : SortOrder)
  | group (name : String) (grouping : Grouping) (nested : List Stage)
  | reinstate (tags : List String)
  | decorate (decorator : Decorator)

/-- A list in the middle of a run, and the report of the last cap that cut. -/
structure Progress where
  itineraries : List Itinerary
  cap : Option CapReport

namespace Stage

def name : Stage → String
  | reject flagger => flagger.tag
  | sort .cost => "sort-by-generalized-cost"
  | sort (.results _) => "sort-by-sort-order"
  | cap .. => Cap.tag
  | group name .. => name
  | reinstate _ => "remove-deletion-flag-for-least-transfers-itinerary"
  | decorate decorator => decorator.name

mutual

/-- The list after a stage. A grouping runs its stages on each class of kept itineraries by
itself and puts the rejected itineraries behind them. -/
def run : Stage → Progress → Except FilterError Progress
  | reject flagger, p => .ok { p with itineraries := flagger.run p.itineraries }
  | sort ranking, p => .ok { p with itineraries := sortByRanks ranking.ranks p.itineraries }
  | cap max croppedEnd order, p =>
    let (its, report) := Cap.run max croppedEnd order p.itineraries
    .ok ⟨its, report <|> p.cap⟩
  | group _ grouping nested, p => do
    let kept := p.itineraries.filter Itinerary.isKept
    let rejected := p.itineraries.filter (!·.isKept)
    let done ← (classes grouping.key? kept).foldlM
      (fun done group => do
        let reduced ← runAll nested ⟨group, done.cap⟩
        pure ⟨done.itineraries ++ reduced.itineraries, reduced.cap⟩)
      (⟨[], p.cap⟩ : Progress)
    pure { done with itineraries := done.itineraries ++ rejected }
  | reinstate tags, p => .ok { p with itineraries := reinstateOne tags p.itineraries }
  | decorate decorator, p => do
    pure { p with itineraries := ← decorator.run p.itineraries }

def runAll : List Stage → Progress → Except FilterError Progress
  | [], p => .ok p
  | s :: ss, p => do runAll ss (← run s p)

end

end Stage
end JourneyPages
