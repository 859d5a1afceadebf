import JourneyPages.Proofs.Filter.Chain

/-!
Lists that the rules spare. Rides on trips of their own, none dearer than another, are alone in
their groups and within every limit, and so the standard rules leave them as they are.
-/
namespace JourneyPages

theorem rejectBy_eq_self (tag : String) {verdicts : List Bool} (h : ∀ v ∈ verdicts, v = false)
    (its : List Itinerary) : rejectBy tag verdicts its = its := by
  induction its generalizing verdicts with
  | nil => rfl
  | cons it its ih =>
    unfold rejectBy
    split
    · cases verdicts with
      | nil => rfl
      | cons v verdicts =>
        obtain ⟨rfl, hrest⟩ := List.forall_mem_cons.mp h
        exact congrArg (it :: ·) (ih hrest)
    · exact congrArg (it :: ·) (ih h)

theorem Flagger.run_eq_self {f : Flagger} {its : List Itinerary} (kept : ∀ it ∈ its, it.isKept)
    (h : ∀ v ∈ f.verdicts its, v = false) : f.run its = its := by
  rw [Flagger.run, List.filter_eq_self.mpr kept]
  exact rejectBy_eq_self f.tag h its

/-- Where no two entries share a key, each is a class of its own. -/
theorem classes_eq_singletons {α κ : Type} [DecidableEq κ] {key : α → Option κ} {xs : List α}
    (h : xs.Pairwise fun a b => key a ≠ key b) : classes key xs = xs.map fun x => [x] := by
  induction xs with
  | nil => rw [classes, List.map_nil]
  | cons x xs ih =>
    obtain ⟨hx, hxs⟩ := List.pairwise_cons.mp h
    cases hkey : key x with
    | none => rw [classes_cons_of_none hkey, ih hxs, List.map_cons]
    | some k =>
      have hnone : xs.filter (fun y => key y = some k) = [] := by
        refine List.filter_eq_nil_iff.mpr fun y hy hyk => hx y hy ?_
        rw [hkey, of_decide_eq_true hyk]
      have hall : xs.filter (fun y => key y ≠ some k) = xs := by
        refine List.filter_eq_self.mpr fun y hy => decide_eq_true fun hyk => hx y hy ?_
        rw [hkey, hyk]
      rw [classes_cons_of_some hkey, hnone, hall, ih hxs, List.map_cons]

namespace Stage

theorem outcomeAll_eq_self {stages : List Stage} {its : List Itinerary}
    (h : ∀ s ∈ stages, s.outcome its = its) : outcomeAll stages its = its := by
  induction stages with
  | nil => rfl
  | cons s stages ih =>
    obtain ⟨hs, hstages⟩ := List.forall_mem_cons.mp h
    rw [outcomeAll, hs, ih hstages]

theorem outcome_sort_singleton (ranking : Ranking) (it : Itinerary) :
    (sort ranking).outcome [it] = [it] := List.mergeSort_singleton it

theorem outcome_reinstate_singleton (tags : List String) {it : Itinerary} (kept : it.isKept) :
    (reinstate tags).outcome [it] = [it] := by
  simp [outcome, reinstateOne, kept]

/-- A count of one at least spares a list of one. -/
theorem outcome_beyondCount_singleton (tag : String) {count : Nat} (hcount : 1 ≤ count)
    {it : Itinerary} (kept : it.isKept) :
    (reject (.beyondCount tag count)).outcome [it] = [it] := by
  refine Flagger.run_eq_self (by simpa using kept) ?_
  simp only [Flagger.verdicts, List.zipIdx_cons, List.zipIdx_nil, List.map_cons, List.map_nil,
    List.mem_singleton, forall_eq, decide_eq_false_iff_not]
  omega

/-- A group spares a list if it sets each entry apart and spares it by itself. -/
theorem outcome_group_eq_self {name : String} {grouping : Grouping} {nested : List Stage}
    {its : List Itinerary} (kept : ∀ it ∈ its, it.isKept)
    (apart : its.Pairwise fun a b => grouping.key? a ≠ grouping.key? b)
    (hnested : ∀ it ∈ its, ∀ s ∈ nested, s.outcome [it] = [it]) :
    (group name grouping nested).outcome its = its := by
  have hrejected : its.filter (!·.isKept) = [] := by
    refine List.filter_eq_nil_iff.mpr fun it hit => ?_
    simp [kept it hit]
  have hgroups : (its.map fun it => [it]).flatMap (outcomeAll nested) = its := by
    rw [List.flatMap_map]
    calc its.flatMap (fun it => outcomeAll nested [it])
        = its.flatMap fun it => [it] :=
          List.flatMap_congr fun it hit => outcomeAll_eq_self (hnested it hit)
      _ = its := List.flatMap_singleton' its
  rw [outcome, List.filter_eq_self.mpr kept, classes_eq_singletons apart, hrejected, hgroups,
    List.append_nil]

end Stage

/-- The one leg of an itinerary is characteristic of it. -/
theorem characteristicLegs_of_single {share : Float} {it : Itinerary} {leg : Leg}
    (h : it.transitLegs = [leg]) : characteristicLegs share it = [leg] := by
  simp [characteristicLegs, h, byDistance, takeCovering]

/-- Rides of one leg each on trips of their own, none of them dearer than another. -/
structure LoneRides (its : List Itinerary) : Prop where
  kept : ∀ it ∈ its, it.isKept
  single : ∀ it ∈ its, ∃ leg trip, it.legs = [leg] ∧ leg.trip? = some trip
  apart : (its.map Flagger.tripsOf).Nodup
  sameCost : ∀ it ∈ its, ∀ other ∈ its, it.cost = other.cost
  /-- Each is within a limit of twice its own cost, as far as that is not of the trip. -/
  withinTwice : ∀ it ∈ its, ∀ v ∈ (Flagger.dearOtherLegs 2.0).verdicts [it], v = false

namespace LoneRides

variable {its : List Itinerary} (h : LoneRides its)
include h

theorem filter (q : Itinerary → Bool) : LoneRides (its.filter q) where
  kept it hit := h.kept it (List.mem_of_mem_filter hit)
  single it hit := h.single it (List.mem_of_mem_filter hit)
  apart := h.apart.sublist (List.filter_sublist.map Flagger.tripsOf)
  sameCost it hit other hother :=
    h.sameCost it (List.mem_of_mem_filter hit) other (List.mem_of_mem_filter hother)
  withinTwice it hit := h.withinTwice it (List.mem_of_mem_filter hit)

theorem hasTransit : ∀ it ∈ its, it.hasTransit := by
  intro it hit
  obtain ⟨leg, trip, hlegs, htrip⟩ := h.single it hit
  simp [Itinerary.hasTransit, hlegs, Leg.isTransit, htrip]

theorem key?_trips {it : Itinerary} (hit : it ∈ its) (share : Float) :
    (Grouping.trips share).key? it = some (.trips (Flagger.tripsOf it)) := by
  obtain ⟨leg, trip, hlegs, htrip⟩ := h.single it hit
  have htransit : it.transitLegs = [leg] := by
    simp [Itinerary.transitLegs, hlegs, Leg.isTransit, htrip]
  simp [Grouping.key?, h.hasTransit it hit, Grouping.keyOfLegs, Flagger.tripsOf,
    characteristicLegs_of_single htransit, htransit]

/-- A limit on similar itineraries finds none. -/
theorem outcome_similarityStage {s : SimilarityLimit} (hmax : 1 ≤ s.max)
    (hother : 1.0 < s.otherLegsFactor → ∀ it ∈ its,
      ∀ v ∈ (Flagger.dearOtherLegs s.otherLegsFactor).verdicts [it], v = false) :
    (Plan.similarityStage s).outcome its = its := by
  have happart : its.Pairwise fun a b =>
      (Grouping.trips s.share).key? a ≠ (Grouping.trips s.share).key? b := by
    refine (List.pairwise_map.mp h.apart).imp_of_mem fun {a b} ha hb hab => ?_
    rw [h.key?_trips ha, h.key?_trips hb]
    simpa using hab
  refine Stage.outcome_group_eq_self h.kept happart fun it hit => ?_
  have hkept := h.kept it hit
  have hsingle : ∀ other ∈ [it], other.isKept := by simpa using hkept
  simp only [List.forall_mem_append]
  and_intros
  · split
    · rw [List.forall_mem_singleton]
      refine Stage.outcome_group_eq_self hsingle (List.pairwise_singleton _ _) ?_
      simp [Stage.outcome_sort_singleton, Stage.outcome_beyondCount_singleton s.stationsTag le_rfl,
        hkept]
    · simp
  · split
    case isTrue hfactor =>
      rw [List.forall_mem_singleton]
      exact Flagger.run_eq_self hsingle (hother (of_decide_eq_true hfactor) it hit)
    case isFalse => simp
  · simp [Stage.outcome_sort_singleton, Stage.outcome_beyondCount_singleton s.tag hmax hkept,
      Stage.outcome_reinstate_singleton _ hkept]

theorem outcome_transitCost (limit : CostLine) (relax : Float) :
    (Stage.reject (.transitCost limit relax)).outcome its = its := by
  refine Flagger.run_eq_self h.kept fun v hv => ?_
  obtain ⟨it, hit, rfl⟩ := List.mem_map.mp hv
  have hnone : ∀ cheaper ∈ its, ¬ cheaper.cost < it.cost := by
    intro cheaper hcheaper
    rw [h.sameCost cheaper hcheaper it hit, Cost.lt_iff]
    exact lt_irrefl _
  simp only [Flagger.isDearTransit, Bool.and_eq_false_iff, List.any_eq_false]
  right
  intro cheaper hcheaper
  simp [hnone cheaper hcheaper]

theorem outcome_streetCost (limit : CostLine) :
    (Stage.reject (.streetCost limit)).outcome its = its := by
  refine Flagger.run_eq_self h.kept fun v hv => ?_
  obtain ⟨it, hit, rfl⟩ := List.mem_map.mp hv
  simp [Itinerary.isStreetOnly, h.hasTransit it hit]

theorem outcome_dearerThanWalk : (Stage.reject .dearerThanWalk).outcome its = its := by
  have hwalks : its.filter Itinerary.isWalkOnly = [] := by
    refine List.filter_eq_nil_iff.mpr fun it hit hwalk => ?_
    obtain ⟨leg, trip, hlegs, htrip⟩ := h.single it hit
    have hby : leg.isBy .walk := by simpa [Itinerary.isWalkOnly, hlegs] using hwalk
    cases htravel : leg.travel <;> simp_all [Leg.isBy, Leg.streetMode?, Leg.trip?]
  refine Flagger.run_eq_self h.kept fun v hv => ?_
  obtain ⟨it, hit, rfl⟩ := List.mem_map.mp hv
  simp [Flagger.leastCost?, hwalks, Cost.least?, Flagger.isAbove]

end LoneRides

namespace Plan
variable {p : Plan}

/-- The rules spare a list that each of them spares. -/
theorem ruled_eq_self (h : p.decorators = []) {its : List Itinerary}
    (kept : ∀ it ∈ its, it.isKept) (hspared : ∀ x ∈ p.ruleStages, x.2.outcome its = its) :
    p.ruled its = its := by
  have hquiet : ∀ s ∈ p.ruleStages.map (·.2), s.Quiet := by
    intro s hs
    obtain ⟨x, hx, rfl⟩ := List.mem_map.mp hs
    exact quiet_of_mem_ruleStages h x hx
  have hall : ∀ s ∈ p.ruleStages.map (·.2), s.outcome its = its := by
    intro s hs
    obtain ⟨x, hx, rfl⟩ := List.mem_map.mp hs
    exact hspared x hx
  rw [ruled, Stage.runAll_eq_of_quiet hquiet, Stage.outcomeAll_eq_self hall]
  exact List.filter_eq_self.mpr kept

/-- The standard rules spare rides of one leg each on trips of their own at one cost. -/
theorem ruled_standard (h : p.decorators = []) (standard : p.preferences = .standard)
    {its : List Itinerary} (lone : LoneRides its) : p.ruled its = its := by
  have hzero : ¬ (0.0 : Float) < 0.0 := by decide
  refine ruled_eq_self h lone.kept ?_
  unfold ruleStages
  rw [decoratorStages_eq_nil h, similarityLimits, standard]
  simp only [List.forall_mem_append]
  and_intros
  · intro x hx
    obtain ⟨s, hs, rfl⟩ := List.mem_map.mp hx
    rw [List.mem_mergeSort] at hs
    rcases List.mem_cons.mp hs with rfl | hs
    · refine lone.outcome_similarityStage (by decide) fun hfactor => absurd hfactor (by decide)
    · obtain rfl := List.mem_singleton.mp hs
      exact lone.outcome_similarityStage (by decide) fun _ => lone.withinTwice
  · simp [FilterPreferences.standard]
  · simp [FilterPreferences.standard]
  · simp [FilterPreferences.standard, whenOn, hzero]
  · simp
  · simp [FilterPreferences.standard, whenSet, lone.outcome_transitCost]
  · simp [FilterPreferences.standard, whenSet, lone.outcome_streetCost]
  · simp [FilterPreferences.standard, whenSet]
  · simp [FilterPreferences.standard, whenOn, lone.outcome_dearerThanWalk]
  · simp [FilterPreferences.standard, whenOn]
  · simp [FilterPreferences.standard, whenOn, hzero]
  · simp [FilterPreferences.standard, whenOn, hzero]

end Plan
end JourneyPages
