import JourneyPages.Filter.Chain

/-!
From preferences and the facts of one request to the stages of a run. Settings may come in any
order: each stage has its phase, and the phases have theirs.
-/
namespace JourneyPages

/-- The kinds of information that decorators add. -/
inductive DecoratorSlot
  | accessibilityScore
  | fares
  | emissions
  | transitAlerts
  | rideHailing
  | stopConsolidation
  deriving DecidableEq, Repr

/-- When the decorator of a slot runs. -/
def DecoratorSlot.phase : DecoratorSlot → Phase
  | accessibilityScore => .absolute
  | fares | emissions | transitAlerts => .decoration
  | rideHailing | stopConsolidation => .finalDecoration

/-- All that determines a run. -/
structure Plan where
  order : SortOrder
  preferences : FilterPreferences
  max : Nat
  croppedEnd : ListEnd
  window : Option (Instant × Span)
  shown : Option (SortKey × ListEnd)
  decorators : List (DecoratorSlot × Decorator)

/-- One choice about a run. -/
inductive Setting
  | max (count : Nat) (croppedEnd : ListEnd)
  | similarity (limit : SimilarityLimit)
  | sameRoutesAndStops (on : Bool)
  | sameEndTrip (on : Bool)
  | leastBicycleDistance (meters : Float)
  | transitCost (limit : Option TransitLimit)
  | streetCost (limit : Option CostLine)
  | dearerThanStreet (limit : Option CostLine)
  | dearerThanWalk (on : Bool)
  | walkOnly (on : Bool)
  | rentedBicycleRatio (ratio : Float)
  | drivingRatio (ratio : Float)
  /-- Reject what departs outside the window. -/
  | window (opens : Instant) (length : Span)
  /-- Reject what the neighbouring page showed: all on one side of its cut. -/
  | shown (cut : SortKey) (side : ListEnd)
  | decorator (slot : DecoratorSlot) (decorator : Decorator)
  | debug (profile : DebugProfile)

namespace Plan

/-- A plan out of preferences: at most fifty results, the rest cropped at the tail. -/
def ofPreferences (preferences : FilterPreferences) (order : SortOrder) : Plan :=
  ⟨order, preferences, 50, .tail, none, none, []⟩

/-- A plan with nothing but the cap and the final sort. -/
def bare (order : SortOrder) : Plan := ofPreferences .none order

/-- The plan with its preferences changed. -/
def prefer (p : Plan) (change : FilterPreferences → FilterPreferences) : Plan :=
  { p with preferences := change p.preferences }

def set (p : Plan) : Setting → Plan
  | .max count croppedEnd => { p with max := count, croppedEnd := croppedEnd }
  | .similarity limit => p.prefer ({ · with similarity := p.preferences.similarity ++ [limit] })
  | .sameRoutesAndStops on => p.prefer ({ · with sameRoutesAndStops := on })
  | .sameEndTrip on => p.prefer ({ · with sameEndTrip := on })
  | .leastBicycleDistance meters => p.prefer ({ · with leastBicycleDistance := meters })
  | .transitCost limit => p.prefer ({ · with transitCost := limit })
  | .streetCost limit => p.prefer ({ · with streetCost := limit })
  | .dearerThanStreet limit => p.prefer ({ · with dearerThanStreet := limit })
  | .dearerThanWalk on => p.prefer ({ · with dearerThanWalk := on })
  | .walkOnly on => p.prefer ({ · with walkOnly := on })
  | .rentedBicycleRatio ratio => p.prefer ({ · with rentedBicycleRatio := ratio })
  | .drivingRatio ratio => p.prefer ({ · with drivingRatio := ratio })
  | .window opens length => { p with window := some (opens, length) }
  | .shown cut side => { p with shown := some (cut, side) }
  | .decorator slot decorator => { p with decorators := p.decorators ++ [(slot, decorator)] }
  | .debug profile => p.prefer ({ · with debug := profile })

def setAll (p : Plan) (settings : List Setting) : Plan := settings.foldl set p

/-- The stage that enforces a similarity limit. Its last nested stage keeps the limit's own tags
from emptying a group. -/
def similarityStage (s : SimilarityLimit) : Stage :=
  let perStations := if s.perStations then
      [.group s.stationsTag .stations [.sort .cost, .reject (.beyondCount s.stationsTag 1)]]
    else []
  let otherLegs := Flagger.dearOtherLegs s.otherLegsFactor
  let hasFactor := decide (1.0 < s.otherLegsFactor)
  let tags := [s.tag] ++ (if s.perStations then [s.stationsTag] else []) ++
    (if hasFactor then [otherLegs.tag] else [])
  .group s.tag (.trips s.share)
    (perStations ++ (if hasFactor then [.reject otherLegs] else []) ++
      [.sort .cost, .reject (.beyondCount s.tag s.max), .reinstate tags])

/-- The similarity limits, the loosest first. -/
def similarityLimits (p : Plan) : List SimilarityLimit :=
  p.preferences.similarity.mergeSort fun a b => Number.Binary64.totalLE a.share b.share

def sameRoutesAndStopsTag : String := "group-by-same-routes-and-stops"

def sameRoutesAndStopsStage (order : SortOrder) : Stage :=
  .group sameRoutesAndStopsTag .routesAndStops
    [.sort (.results order), .reject (.beyondCount sameRoutesAndStopsTag 1)]

/-- The stages of the decorators. An accessibility score runs only if it is asked for. -/
def decoratorStages (p : Plan) : List (Phase × Stage) :=
  (p.decorators.filter fun (slot, _) =>
    slot ≠ .accessibilityScore || p.preferences.accessibilityScore).map fun (slot, d) =>
      (slot.phase, .decorate d)

/-- A stage for a rule that is on. -/
def whenOn (on : Bool) (phase : Phase) (flagger : Flagger) : List (Phase × Stage) :=
  if on then [(phase, .reject flagger)] else []

/-- A stage for a limit that is set. -/
def whenSet {α : Type} (limit : Option α) (phase : Phase) (flagger : α → Flagger) :
    List (Phase × Stage) :=
  limit.toList.map fun x => (phase, .reject (flagger x))

/-- The stages in front of paging, not yet in the order of their phases. -/
def ruleStages (p : Plan) : List (Phase × Stage) :=
  let f := p.preferences
  p.similarityLimits.map (fun s => (.grouping, similarityStage s)) ++
  (if f.sameRoutesAndStops then [(.grouping, sameRoutesAndStopsStage p.order)] else []) ++
  (if f.sameEndTrip then [(.sameEndTrip, .sort .cost), (.sameEndTrip, .reject .sameEndTrip)]
    else []) ++
  whenOn (0.0 < f.leastBicycleDistance) .absolute
    (.shortStreetLeg f.leastBicycleDistance .bicycle) ++
  p.decoratorStages ++
  whenSet f.transitCost .costLimit (fun l => .transitCost l.line l.relax) ++
  whenSet f.streetCost .costLimit .streetCost ++
  whenSet f.dearerThanStreet .dominance .dearerThanStreet ++
  whenOn f.dearerThanWalk .dominance .dearerThanWalk ++
  whenOn f.walkOnly .dominance .walkOnly ++
  whenOn (0.0 < f.rentedBicycleRatio) .dominance (.littleRentedBicycle f.rentedBicycleRatio) ++
  whenOn (0.0 < f.drivingRatio) .dominance (.littleDriving f.drivingRatio)

/-- The stage that keeps a run to its window. -/
def windowStages (p : Plan) : List (Phase × Stage) :=
  whenSet p.window .paging fun (opens, length) => .outsideWindow opens length

/-- The stage that leaves out what the neighbouring page showed. -/
def shownStages (p : Plan) : List (Phase × Stage) :=
  whenSet p.shown .paging fun (cut, side) => .alreadyShown p.order side cut

/-- The stages of the plan, not yet in the order of their phases. -/
def stages (p : Plan) : List (Phase × Stage) :=
  p.ruleStages ++ p.windowStages ++ p.shownStages ++
  [(.cap, .cap p.max p.croppedEnd p.order), (.finalSort, .sort (.results p.order))]

/-- The run that the plan describes. Stages of one phase keep their order. -/
def chain (p : Plan) : Chain where
  stages := p.stages.mergeSort fun a b => decide (a.1.rank ≤ b.1.rank)
  debug := p.preferences.debug
  max := p.max
  croppedEnd := p.croppedEnd

end Plan
end JourneyPages
