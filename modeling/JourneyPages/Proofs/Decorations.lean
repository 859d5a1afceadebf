import JourneyPages.Proofs.Filter.Verdicts
import JourneyPages.Proofs.Walk

/-!
Decorations are for those who read a response and for nobody else: no rule, order, grouping, cap or
link looks at them. A run with decorators that do no more than decorate goes as it would without
them.
-/
namespace JourneyPages

namespace Itinerary

/-- The itinerary without what decorators attached to it. -/
def undecorated (it : Itinerary) : Itinerary := { it with decorations := [] }

section undecorated
variable (it : Itinerary)

@[simp] theorem isKept_undecorated : it.undecorated.isKept = it.isKept := rfl
@[simp] theorem hasTransit_undecorated : it.undecorated.hasTransit = it.hasTransit := rfl
@[simp] theorem key_undecorated : it.undecorated.key = it.key := rfl
@[simp] theorem cost_undecorated : it.undecorated.cost = it.cost := rfl
@[simp] theorem tags_undecorated : it.undecorated.tags = it.tags := rfl
@[simp] theorem endTrips?_undecorated : it.undecorated.endTrips? = it.endTrips? := rfl

theorem undecorated_reject (tag : String) :
    (it.reject tag).undecorated = it.undecorated.reject tag := by
  unfold reject
  split
  case isTrue h => exact (if_pos h).symm
  case isFalse h => exact (if_neg h).symm

theorem undecorated_decorate (key : String) (value : Json) :
    (it.decorate key value).undecorated = it.undecorated := rfl

end undecorated

/-- A choice that does not look at decorations takes the same itineraries. -/
theorem filter_undecorated {q : Itinerary → Bool} (hq : ∀ it, q it.undecorated = q it)
    (its : List Itinerary) : (its.map undecorated).filter q = (its.filter q).map undecorated := by
  rw [List.filter_map]
  congr 1
  exact List.filter_congr fun it _ => hq it

/-- A step on entries with their places that does not look at decorations. -/
theorem map_zipIdx_undecorated {step : Itinerary × Nat → Itinerary}
    (h : ∀ it i, step (it.undecorated, i) = (step (it, i)).undecorated) (its : List Itinerary) :
    (its.map undecorated).zipIdx.map step = (its.zipIdx.map step).map undecorated := by
  rw [List.zipIdx_map, List.map_map, List.map_map]
  exact List.map_congr_left fun x _ => h x.1 x.2

end Itinerary

open Itinerary (undecorated filter_undecorated map_zipIdx_undecorated)

/-- The order of a list by sort keys. -/
theorem sortByRanks_undecorated (ranks : SortKey → List Int) (its : List Itinerary) :
    sortByRanks ranks (its.map undecorated) = (sortByRanks ranks its).map undecorated := by
  rw [sortByRanks, sortByRanks]
  exact (List.map_mergeSort (by intros; rfl)).symm

/-! Rules -/

namespace Flagger
variable (its : List Itinerary)

theorem leastCost?_undecorated {kind : Itinerary → Bool} (h : ∀ it, kind it.undecorated = kind it) :
    leastCost? kind (its.map undecorated) = leastCost? kind its := by
  rw [leastCost?, filter_undecorated h, List.map_map]
  rfl

theorem sharedTrips_undecorated : sharedTrips (its.map undecorated) = sharedTrips its := by
  cases its with
  | nil => rfl
  | cons it rest =>
    simp only [List.map_cons, sharedTrips, List.all_map]
    rfl

theorem against_undecorated (f : Flagger) (it : Itinerary) :
    f.against (its.map undecorated) it.undecorated = f.against its it := by
  cases f with
  | transitCost limit relax =>
    simp only [against, isDearTransit, List.any_map]
    rfl
  | streetCost | dearerThanStreet | dearerThanWalk =>
    rw [against, leastCost?_undecorated its fun _ => rfl]
    rfl
  | dearOtherLegs factor =>
    simp only [against, otherCosts, sharedTrips_undecorated, List.map_map]
    rfl
  | _ => rfl

theorem endTripVerdicts_undecorated (firsts lasts : List ScopedId) :
    endTripVerdicts firsts lasts (its.map undecorated) = endTripVerdicts firsts lasts its := by
  induction its generalizing firsts lasts with
  | nil => rfl
  | cons it rest ih => simp only [List.map_cons, endTripVerdicts, it.endTrips?_undecorated, ih]

theorem verdicts_undecorated (f : Flagger) : f.verdicts (its.map undecorated) = f.verdicts its := by
  cases h : f.goesByOrder with
  | false =>
    rw [verdicts_eq_map h, verdicts_eq_map h, List.map_map]
    exact List.map_congr_left fun it _ => against_undecorated its f it
  | true =>
    cases f with
    | beyondCount tag count => simp [verdicts, List.zipIdx_map, Function.comp_def]
    | sameEndTrip => exact endTripVerdicts_undecorated its [] []
    | _ => cases h

end Flagger

theorem rejectBy_undecorated (tag : String) (verdicts : List Bool) (its : List Itinerary) :
    rejectBy tag verdicts (its.map undecorated) = (rejectBy tag verdicts its).map undecorated := by
  fun_induction rejectBy tag verdicts its with
  | case1 => simp [rejectBy]
  | case2 it rest hk verdicts ih => simp [rejectBy, hk, ih, Itinerary.undecorated_reject]
  | case3 it rest hk verdicts ih => simp [rejectBy, hk, ih]
  | case4 it rest hk => simp [rejectBy, hk]
  | case5 verdicts it rest hk ih => simp [rejectBy, hk, ih]

theorem Flagger.run_undecorated (f : Flagger) (its : List Itinerary) :
    f.run (its.map undecorated) = (f.run its).map undecorated := by
  rw [run, filter_undecorated Itinerary.isKept_undecorated, verdicts_undecorated,
    rejectBy_undecorated, run]

/-! Stages -/

theorem reinstateOne.candidates_undecorated (tags : List String) (its : List Itinerary) :
    (((its.map undecorated).zipIdx.filter fun (it, _) => it.tags.all (· ∈ tags)).mergeSort
        fun a b => (compareRanks (ranks a.1) (ranks b.1)).isLE) =
      ((its.zipIdx.filter fun (it, _) => it.tags.all (· ∈ tags)).mergeSort
        fun a b => (compareRanks (ranks a.1) (ranks b.1)).isLE).map (Prod.map undecorated id) := by
  rw [List.zipIdx_map, List.filter_map]
  exact (List.map_mergeSort (by intros; rfl)).symm

theorem reinstateOne_undecorated (tags : List String) (its : List Itinerary) :
    reinstateOne tags (its.map undecorated) = (reinstateOne tags its).map undecorated := by
  have hany : (its.map undecorated).any Itinerary.isKept = its.any Itinerary.isKept :=
    List.any_map
  simp only [reinstateOne, hany, reinstateOne.candidates_undecorated]
  split
  · rfl
  · cases List.mergeSort (List.filter _ its.zipIdx) _ with
    | nil => rfl
    | cons best rest =>
      refine map_zipIdx_undecorated (fun it i => ?_) its
      dsimp only
      split <;> rfl

theorem Cap.candidates_undecorated (o : SortOrder) (its : List Itinerary) :
    candidates o (its.map undecorated) = (candidates o its).map (Prod.map undecorated id) := by
  rw [candidates, candidates, List.zipIdx_map, List.filter_map]
  exact (List.map_mergeSort (by intros; rfl)).symm

theorem Cap.run_undecorated (max : Nat) (e : ListEnd) (o : SortOrder) (its : List Itinerary) :
    run max e o (its.map undecorated) =
      ((run max e o its).1.map undecorated, (run max e o its).2) := by
  rw [run, run, candidates_undecorated]
  dsimp only
  rw [List.length_map, crop_map]
  split
  · rfl
  · dsimp only
    rw [boundary?_map, Option.map_map, List.map_map, List.length_map]
    refine Prod.ext ?_ rfl
    refine map_zipIdx_undecorated (fun it i => ?_) its
    dsimp only
    exact (apply_ite undecorated _ _ _).trans (by rw [Itinerary.undecorated_reject]) |>.symm

/-- The state of a run without decorations. -/
def Progress.undecorated (p : Progress) : Progress :=
  ⟨p.itineraries.map Itinerary.undecorated, p.cap⟩

/-- A decorator that never fails, and that neither adds, removes or moves itineraries nor changes
anything in them but their decorations. -/
def Decorator.OnlyDecorates (d : Decorator) : Prop :=
  ∀ its, ∃ decorated, d.decorate its = .ok decorated ∧
    decorated.map undecorated = its.map undecorated

namespace Stage

/-- A stage that does the same with decorated and with undecorated itineraries. -/
def IgnoresDecorations (s : Stage) : Prop :=
  ∀ p, s.run p.undecorated = (s.run p).map Progress.undecorated

theorem outcomeAll_undecorated {stages : List Stage}
    (h : ∀ s ∈ stages, ∀ its, s.outcome (its.map undecorated) = (s.outcome its).map undecorated)
    (its : List Itinerary) :
    outcomeAll stages (its.map undecorated) = (outcomeAll stages its).map undecorated := by
  induction stages generalizing its with
  | nil => rfl
  | cons s stages ih =>
    rw [outcomeAll, h s List.mem_cons_self, outcomeAll]
    exact ih (fun t ht => h t (List.mem_cons_of_mem s ht)) (s.outcome its)

theorem Quiet.outcome_undecorated {s : Stage} (h : s.Quiet) (its : List Itinerary) :
    s.outcome (its.map undecorated) = (s.outcome its).map undecorated := by
  induction h generalizing its with
  | reject flagger => exact flagger.run_undecorated its
  | sort ranking => exact sortByRanks_undecorated ranking.ranks its
  | @group name grouping nested _ ih =>
    have hkey : grouping.key? ∘ undecorated = grouping.key? := rfl
    rw [outcome, filter_undecorated Itinerary.isKept_undecorated,
      filter_undecorated fun it => by rw [Itinerary.isKept_undecorated], classes_map, hkey,
      List.flatMap_map, outcome, List.map_append, List.map_flatMap]
    congr 1
    exact List.flatMap_congr fun group _ => outcomeAll_undecorated ih group
  | reinstate tags => exact reinstateOne_undecorated tags its

theorem Quiet.ignoresDecorations {s : Stage} (h : s.Quiet) : s.IgnoresDecorations := by
  intro p
  rw [h.run_eq, h.run_eq]
  exact congrArg (fun out => Except.ok (Progress.mk out p.cap))
    (h.outcome_undecorated p.itineraries)

theorem ignoresDecorations_cap (max : Nat) (e : ListEnd) (o : SortOrder) :
    (cap max e o).IgnoresDecorations := by
  intro p
  simp only [run, Progress.undecorated, Cap.run_undecorated]
  rfl

/-- Whether a stage is one for a decorator. -/
def decorates : Stage → Bool
  | decorate _ => true
  | _ => false

/-- The stages for decorators may as well be left out of a run, if the others ignore what they do
and they do nothing else. -/
theorem runAll_undecorated {stages : List Stage}
    (hignores : ∀ s ∈ stages, s.decorates = false → s.IgnoresDecorations)
    (honly : ∀ d, decorate d ∈ stages → d.OnlyDecorates) (p : Progress) :
    (runAll stages p).map Progress.undecorated =
      runAll (stages.filter (!·.decorates)) p.undecorated := by
  induction stages generalizing p with
  | nil => rfl
  | cons s stages ih =>
    have ih := ih (fun t ht => hignores t (List.mem_cons_of_mem s ht))
      fun d hd => honly d (List.mem_cons_of_mem s hd)
    cases hs : s.decorates with
    | true =>
      obtain ⟨d, rfl⟩ : ∃ d, s = decorate d := by
        cases s <;> simp_all [decorates]
      obtain ⟨decorated, hdecorate, hsame⟩ := honly d List.mem_cons_self p.itineraries
      have hlength : decorated.length = p.itineraries.length := by
        simpa using congrArg List.length hsame
      have hrun : (decorate d).run p = .ok ⟨decorated, p.cap⟩ := by
        simp [run, Decorator.run, hdecorate, hlength, bind, Except.bind, pure, Except.pure]
      have hp : Progress.undecorated ⟨decorated, p.cap⟩ = p.undecorated := by
        rw [Progress.undecorated, hsame]
        rfl
      rw [List.filter_cons_of_neg (by simp [decorates]), ← hp, ← ih, runAll, hrun]
      rfl
    | false =>
      rw [List.filter_cons_of_pos (by simp [hs]), runAll, runAll,
        hignores s List.mem_cons_self hs p]
      cases s.run p with
      | error e => rfl
      | ok q => exact ih q

end Stage
/-! Runs -/

theorem Chain.sweep_undecorated (c : Chain) (its : List Itinerary) :
    c.sweep (its.map undecorated) = (c.sweep its).map undecorated := by
  have hexplain : ∀ its : List Itinerary, (its.map undecorated).map Itinerary.explain =
      (its.map Itinerary.explain).map undecorated := by
    intro its
    rw [List.map_map, List.map_map]
    rfl
  rw [sweep_eq, sweep_eq]
  cases c.debug with
  | off => exact filter_undecorated Itinerary.isKept_undecorated its
  | listAll => exact hexplain its
  | limitToWindow =>
    dsimp only
    rw [filter_undecorated fun _ => rfl, hexplain]
  | limitToCount =>
    cases c.croppedEnd with
    | tail => simp only [hexplain, List.map_take]
    | head => simp only [hexplain, List.map_drop, List.length_map]

def ChainResult.undecorated (r : ChainResult) : ChainResult :=
  ⟨r.itineraries.map Itinerary.undecorated, r.cap⟩

namespace Plan
variable {p : Plan}

/-- The plan with its decorators left out. -/
def undecorated (p : Plan) : Plan := { p with decorators := [] }

/-- The stages of a plan that are not for decorators are those of the plan without them. -/
theorem filter_stages (p : Plan) : p.stages.filter (!·.2.decorates) = p.undecorated.stages := by
  have hon : ∀ on φ f, (whenOn on φ f).filter (!·.2.decorates) = whenOn on φ f := by
    rintro (_ | _) φ f <;> rfl
  have hset : ∀ {α : Type} (limit : Option α) φ (f : α → Flagger),
      (whenSet limit φ f).filter (!·.2.decorates) = whenSet limit φ f := by
    rintro α (_ | _) φ f <;> rfl
  have hdecorators : p.decoratorStages.filter (!·.2.decorates) = [] := by
    rw [List.filter_eq_nil_iff, decoratorStages, List.forall_mem_map]
    exact fun x _ => by simp [Stage.decorates]
  have hsimilarity : (p.similarityLimits.map fun s => (Phase.grouping, similarityStage s)).filter
      (!·.2.decorates) = p.similarityLimits.map fun s => (.grouping, similarityStage s) :=
    List.filter_eq_self.mpr (List.forall_mem_map.mpr fun _ _ => rfl)
  simp only [stages, ruleStages, windowStages, shownStages, List.filter_append, hon, hset,
    hdecorators, hsimilarity, apply_ite (List.filter _), List.filter_nil]
  rfl

theorem filter_chain_stages (p : Plan) :
    (p.chain.stages.map (·.2)).filter (!·.decorates) = p.undecorated.chain.stages.map (·.2) := by
  have htrans : ∀ a b c : Phase × Stage, decide (a.1.rank ≤ b.1.rank) →
      decide (b.1.rank ≤ c.1.rank) → decide (a.1.rank ≤ c.1.rank) := by
    simp only [decide_eq_true_eq]
    exact fun _ _ _ => Nat.le_trans
  have htotal : ∀ a b : Phase × Stage,
      decide (a.1.rank ≤ b.1.rank) || decide (b.1.rank ≤ a.1.rank) := by
    simpa using fun a b : Phase × Stage => Nat.le_total a.1.rank b.1.rank
  rw [List.filter_map, chain, filter_mergeSort htrans htotal]
  simp only [Function.comp_def, filter_stages, chain]

theorem ignoresDecorations_of_mem_chain (h : p.decorators = []) :
    ∀ s ∈ p.chain.stages.map (·.2), s.IgnoresDecorations :=
  forall_mem_chain (by simp [h]) (fun f => (Stage.Quiet.reject f).ignoresDecorations)
    (fun r => (Stage.Quiet.sort r).ignoresDecorations)
    (fun s => (quiet_similarityStage s).ignoresDecorations)
    (fun o => (quiet_sameRoutesAndStopsStage o).ignoresDecorations) Stage.ignoresDecorations_cap

theorem onlyDecorates_of_mem_chain (h : ∀ x ∈ p.decorators, x.2.OnlyDecorates) :
    ∀ s ∈ p.chain.stages.map (·.2), ∀ d, s = .decorate d → d.OnlyDecorates := by
  refine forall_mem_chain ?_ (fun f d hd => ?_) (fun r d hd => ?_) (fun s d hd => ?_)
    (fun o d hd => ?_) fun max e o d hd => ?_
  case refine_1 =>
    rintro x hx d ⟨⟩
    exact h x hx
  all_goals cases hd

theorem sweep_chain_undecorated (p : Plan) : p.undecorated.chain.sweep = p.chain.sweep := by
  funext its
  rw [Chain.sweep_eq, Chain.sweep_eq]
  rfl

/-- The run of a plan goes as it would on undecorated itineraries and without the decorators. -/
theorem run_undecorated (h : ∀ x ∈ p.decorators, x.2.OnlyDecorates) (its : List Itinerary) :
    (p.chain.run its).map ChainResult.undecorated =
      p.undecorated.chain.run (its.map Itinerary.undecorated) := by
  have hignores : ∀ s ∈ p.chain.stages.map (·.2), s.decorates = false → s.IgnoresDecorations := by
    intro s hs hnot
    have hmem : s ∈ (p.chain.stages.map (·.2)).filter (!·.decorates) :=
      List.mem_filter.mpr ⟨hs, by simp [hnot]⟩
    rw [filter_chain_stages] at hmem
    exact ignoresDecorations_of_mem_chain rfl s hmem
  have hrun := Stage.runAll_undecorated hignores
    (fun d hd => onlyDecorates_of_mem_chain h _ hd d rfl) ⟨its, none⟩
  rw [filter_chain_stages] at hrun
  have hstart : Progress.undecorated ⟨its, none⟩ = ⟨its.map Itinerary.undecorated, none⟩ := rfl
  simp only [Chain.run, bind, Except.bind, ← hstart, ← hrun, sweep_chain_undecorated]
  cases Stage.runAll (p.chain.stages.map (·.2)) ⟨its, none⟩ with
  | error e => rfl
  | ok done =>
    simp only [Except.map, pure, Except.pure, ChainResult.undecorated, Progress.undecorated,
      Chain.sweep_undecorated]

end Plan

theorem PageRequest.links_undecorated (r : PageRequest) (policy : WindowPolicy)
    (its : List Itinerary) (report : Option CapReport) :
    r.links policy (its.map undecorated) report = r.links policy its report := by
  have hfound : transitFound (its.map undecorated) = transitFound its := List.countP_map
  have hnext : ∀ opens used, r.nextWindow policy opens used (its.map undecorated) report =
      r.nextWindow policy opens used its report := by
    intro opens used
    cases report with
    | none => simp only [nextWindow, hfound]
    | some report => rfl
  simp only [links, hnext]

/-- The response with all itineraries undecorated. -/
def Response.undecorated (r : Response) : Response :=
  { r with itineraries := r.itineraries.map Itinerary.undecorated }

namespace Plan

theorem setAll_decorators (p : Plan) (decorators : List (DecoratorSlot × Decorator)) :
    p.setAll (decorators.map fun (slot, d) => .decorator slot d) =
      { p with decorators := p.decorators ++ decorators } := by
  induction decorators generalizing p with
  | nil => simp [setAll]
  | cons x decorators ih =>
    have hrest := ih (p.set (.decorator x.1 x.2))
    simp only [set, List.append_assoc, List.singleton_append] at hrest
    exact hrest

end Plan

namespace SearchRequest
variable (r : SearchRequest) (its : List Itinerary) (p : Preferences)
  {decorators : List (DecoratorSlot × Decorator)}

theorem plan_with_decorators (f : FilterPreferences) :
    r.plan f decorators = { r.plan f [] with decorators := decorators } := by
  have hnone : (r.plan f []).decorators = [] := by rw [plan_eq]
  have hsettings : r.settings decorators =
      r.settings [] ++ decorators.map fun (slot, d) => .decorator slot d := by
    simp [settings]
  rw [plan, hsettings, Plan.setAll, List.foldl_append]
  refine (Plan.setAll_decorators _ _).trans ?_
  exact congrArg (fun front => { r.plan f [] with decorators := front ++ decorators }) hnone

/-- What follows the run in a response sees the decorations in its result only to show them. -/
theorem respond_congr {p : Preferences} {its : List Itinerary}
    (h : ((r.plan p.filter decorators).chain.run its).map ChainResult.undecorated =
      ((r.plan p.filter []).chain.run its).map ChainResult.undecorated) :
    (r.respond its p decorators).map Response.undecorated =
      (r.respond its p []).map Response.undecorated := by
  refine map_bind_congr (u := id) rfl fun _ _ _ => ?_
  refine map_bind_congr (u := id) rfl ?_
  rintro policy _ rfl
  refine map_bind_congr (u := ChainResult.undecorated) ?_ fun a b hab => ?_
  · rw [map_mapError, map_mapError, h]
  · obtain ⟨hsame, hcap⟩ : a.itineraries.map undecorated = b.itineraries.map undecorated ∧
        a.cap = b.cap := by
      simpa [ChainResult.undecorated] using hab
    have hlinks : r.page.links policy a.itineraries a.cap =
        r.page.links policy b.itineraries b.cap := by
      rw [← PageRequest.links_undecorated, hsame, hcap, PageRequest.links_undecorated]
    rw [hlinks]
    refine map_bind_congr (u := id) rfl ?_
    rintro links _ rfl
    exact congrArg Except.ok (by simp [Response.undecorated, hsame, hcap])

/-- Decorators that only decorate change nothing in a response but decorations, and whether there
is a response, and why not, does not depend on them. -/
theorem respond_undecorated (h : ∀ x ∈ decorators, x.2.OnlyDecorates) :
    (r.respond its p decorators).map Response.undecorated =
      (r.respond its p []).map Response.undecorated := by
  have hnone : ∀ x ∈ (r.plan p.filter []).decorators, x.2.OnlyDecorates := by simp [plan_eq]
  have hplan : (r.plan p.filter decorators).undecorated = (r.plan p.filter []).undecorated := by
    rw [plan_with_decorators, Plan.undecorated, Plan.undecorated]
  refine respond_congr r ?_
  rw [Plan.run_undecorated (by rwa [plan_with_decorators]), Plan.run_undecorated hnone, hplan]

/-- A decorator that attaches one value to every itinerary. -/
def attaching (key : String) (value : Json) : Decorator :=
  ⟨key, fun its => .ok (its.map (·.decorate key value))⟩

theorem onlyDecorates_attaching (key : String) (value : Json) :
    (attaching key value).OnlyDecorates := by
  refine fun its => ⟨_, rfl, ?_⟩
  rw [List.map_map]
  exact List.map_congr_left fun it _ => Itinerary.undecorated_decorate it key value

/-- Decorators for the three places in a run, in another order than theirs. -/
def threePlaces : List (DecoratorSlot × Decorator) :=
  [(.rideHailing, attaching "pickup" (.int 5)), (.fares, attaching "fare" (.int 240)),
    (.accessibilityScore, attaching "score" (.int 1))]

/-- Preferences that ask for scores and for rejected itineraries too. -/
def allScored : Preferences :=
  ⟨{ FilterPreferences.standard with accessibilityScore := true, debug := .listAll }, .standard⟩

theorem respond_undecorated_threePlaces : (∀ x ∈ threePlaces, x.2.OnlyDecorates) ∧
    ((SearchRequest.first false 1 480 120).respond [slowRide.reject "seen", stroll, fastRide]
        allScored threePlaces).map Response.undecorated =
      ((SearchRequest.first false 1 480 120).respond [slowRide.reject "seen", stroll, fastRide]
        allScored []).map Response.undecorated := by
  have honly : ∀ x ∈ threePlaces, x.2.OnlyDecorates := by
    simp [threePlaces, onlyDecorates_attaching]
  exact ⟨honly, respond_undecorated _ _ _ honly⟩

end SearchRequest
end JourneyPages
