import JourneyPages.Proofs.Filter.Chain
import JourneyPages.Proofs.Filter.Verdicts

/-!
What the rules that go by the least cost leave. Of transit the cheapest is always left, and the
rules of dominance leave what they measure transit by. Only the limit on street itineraries can
reject the very itinerary that it is measured by: where the cost line is below the identity.
-/
namespace JourneyPages

namespace Flagger

/-- What a rule that does not go down the list leaves of kept itineraries. -/
def survivors (f : Flagger) (its : List Itinerary) : List Itinerary :=
  its.filter fun it => !f.against its it

theorem filter_isKept_run_eq_survivors {f : Flagger} (h : f.goesByOrder = false)
    (its : List Itinerary) :
    (f.run its).filter Itinerary.isKept = f.survivors (its.filter Itinerary.isKept) := by
  rw [run, verdicts_eq_map h, filter_isKept_rejectBy_map, survivors]

variable {kind : Itinerary → Bool} {its : List Itinerary}

theorem leastCost?_eq_some_iff {c : Cost} : leastCost? kind its = some c ↔
    (∃ it ∈ its, kind it ∧ it.cost = c) ∧ ∀ it ∈ its, kind it → c ≤ it.cost := by
  rw [leastCost?, Cost.least?_eq_some_iff]
  simp only [List.mem_map, List.mem_filter, forall_exists_index, and_imp, and_assoc]
  refine and_congr_right fun _ => ⟨fun h it hit hkind => h _ it hit hkind rfl, ?_⟩
  rintro h _ it hit hkind rfl
  exact h it hit hkind

theorem leastCost?_eq_none_iff : leastCost? kind its = none ↔ ∀ it ∈ its, kind it = false := by
  have hnil : leastCost? kind its = none ↔ its.filter kind = [] := by
    rw [leastCost?]
    cases its.filter kind <;> simp [Cost.least?]
  rw [hnil, List.filter_eq_nil_iff]
  simp only [Bool.not_eq_true]

theorem exists_least (kind : Itinerary → Bool) (h : ∃ it ∈ its, kind it) : ∃ it ∈ its, kind it ∧
    leastCost? kind its = some it.cost ∧ ∀ other ∈ its, kind other → it.cost ≤ other.cost := by
  cases hleast : leastCost? kind its with
  | none =>
    obtain ⟨it, hit, hkind⟩ := h
    rw [leastCost?_eq_none_iff.mp hleast it hit] at hkind
    cases hkind
  | some c =>
    obtain ⟨⟨it, hit, hkind, rfl⟩, hle⟩ := leastCost?_eq_some_iff.mp hleast
    exact ⟨it, hit, hkind, rfl, hle⟩

/-- Nothing is dearer than itself, whatever the limit: the cheapest transit is left. -/
theorem exists_transit_survivor (limit : CostLine) (relax : Float)
    (h : ∃ it ∈ its, it.hasTransit) :
    ∃ it ∈ (transitCost limit relax).survivors its, it.hasTransit := by
  obtain ⟨it, hit, htransit, -, hle⟩ := exists_least Itinerary.hasTransit h
  refine ⟨it, List.mem_filter.mpr ⟨hit, ?_⟩, htransit⟩
  rw [Bool.not_eq_true']
  apply Bool.eq_false_iff.mpr
  intro hdear
  simp only [against, isDearTransit, Bool.and_eq_true, List.any_eq_true, decide_eq_true_eq] at hdear
  obtain ⟨-, cheaper, hcheaper, ⟨hkind, hlt⟩, -⟩ := hdear
  exact not_lt.mpr (hle cheaper hcheaper hkind) hlt

theorem transit_survivors_eq_self (limit : CostLine) (relax : Float)
    (h : ¬ ∃ it ∈ its, it.hasTransit) : (transitCost limit relax).survivors its = its := by
  refine List.filter_eq_self.mpr fun it hit => ?_
  have hstreet : it.hasTransit = false := Bool.eq_false_iff.mpr fun ht => h ⟨it, hit, ht⟩
  simp [against, isDearTransit, hstreet]

/-- A rule against transit that is dearer than itineraries of another kind never rejects all. -/
theorem exists_survivor_of_dominance (kind : Itinerary → Bool) {f : Flagger}
    (hf : ∀ its it, f.against its it → it.hasTransit ∧ leastCost? kind its ≠ none)
    (hkind : ∀ it : Itinerary, kind it → it.hasTransit = false) :
    (∃ it, it ∈ f.survivors its) ↔ ∃ it, it ∈ its := by
  constructor
  · rintro ⟨it, hit⟩
    exact ⟨it, List.mem_of_mem_filter hit⟩
  · rintro ⟨it, hit⟩
    by_cases h : ∃ other ∈ its, kind other
    · obtain ⟨other, hother, hk⟩ := h
      refine ⟨other, List.mem_filter.mpr ⟨hother, ?_⟩⟩
      by_contra hrejects
      have htransit := (hf its other (by simpa using hrejects)).1
      rw [hkind other hk] at htransit
      cases htransit
    · refine ⟨it, List.mem_filter.mpr ⟨hit, ?_⟩⟩
      by_contra hrejects
      refine (hf its it (by simpa using hrejects)).2 (leastCost?_eq_none_iff.mpr fun other ho => ?_)
      exact Bool.eq_false_iff.mpr fun hk => h ⟨other, ho, hk⟩

theorem exists_of_isAbove {limit : Option Cost} {c : Cost} (h : isAbove limit c) :
    limit ≠ none := by
  rintro rfl
  cases h

theorem exists_survivor_dearerThanStreet (limit : CostLine) :
    (∃ it, it ∈ (dearerThanStreet limit).survivors its) ↔ ∃ it, it ∈ its := by
  refine exists_survivor_of_dominance Itinerary.isStreetOnly (fun its it hit => ?_)
    fun it hstreet => by simpa [Itinerary.isStreetOnly] using hstreet
  simp only [against, Bool.and_eq_true] at hit
  exact ⟨hit.1, by simpa using exists_of_isAbove hit.2⟩

theorem hasTransit_of_isWalkOnly {it : Itinerary} (h : it.isWalkOnly) : it.hasTransit = false := by
  simp only [Itinerary.isWalkOnly, List.all_eq_true] at h
  simp only [Itinerary.hasTransit, List.any_eq_false]
  intro leg hleg
  have hwalk := h leg hleg
  cases htravel : leg.travel <;> simp_all [Leg.isBy, Leg.streetMode?, Leg.isTransit, Leg.trip?]

theorem exists_survivor_dearerThanWalk :
    (∃ it, it ∈ dearerThanWalk.survivors its) ↔ ∃ it, it ∈ its := by
  refine exists_survivor_of_dominance Itinerary.isWalkOnly (fun its it hit => ?_)
    fun it => hasTransit_of_isWalkOnly
  simp only [against, Bool.and_eq_true] at hit
  exact ⟨hit.1, exists_of_isAbove hit.2⟩

end Flagger

/-- Something is transit, or a cheapest itinerary is within the limit at its own cost. -/
def Tenable (limit : CostLine) (its : List Itinerary) : Prop :=
  ∃ it ∈ its, it.hasTransit ∨
    (∀ other ∈ its, it.cost ≤ other.cost) ∧ it.cost ≤ limit.apply it.cost

namespace Flagger
variable {its : List Itinerary}

theorem tenable_transit_survivors (street limit : CostLine) (relax : Float) :
    Tenable street ((transitCost limit relax).survivors its) ↔ Tenable street its := by
  by_cases h : ∃ it ∈ its, it.hasTransit
  · obtain ⟨it, hit, htransit⟩ := h
    obtain ⟨left, hleft, htransit'⟩ := exists_transit_survivor limit relax ⟨it, hit, htransit⟩
    exact ⟨fun _ => ⟨it, hit, .inl htransit⟩, fun _ => ⟨left, hleft, .inl htransit'⟩⟩
  · rw [transit_survivors_eq_self limit relax h]

/-- The limit on street itineraries leaves something exactly if it leaves transit or a cheapest. -/
theorem exists_survivor_streetCost (limit : CostLine) :
    (∃ it, it ∈ (streetCost limit).survivors its) ↔ Tenable limit its := by
  constructor
  · rintro ⟨it, hit⟩
    obtain ⟨hmem, hleft⟩ := List.mem_filter.mp hit
    by_cases htransit : it.hasTransit
    · exact ⟨it, hmem, .inl htransit⟩
    · obtain ⟨best, hbest, -, hleast, hle⟩ :=
        exists_least (fun _ => true) ⟨it, hmem, rfl⟩
      have hwithin : ¬ limit.apply best.cost < it.cost := by
        simpa [against, Itinerary.isStreetOnly, htransit, isAbove, hleast] using hleft
      refine ⟨best, hbest, .inr ⟨fun other ho => hle other ho rfl, ?_⟩⟩
      exact (hle it hmem rfl).trans (not_lt.mp hwithin)
  · rintro ⟨it, hit, htransit | ⟨hle, hwithin⟩⟩
    · exact ⟨it, List.mem_filter.mpr ⟨hit, by simp [against, Itinerary.isStreetOnly, htransit]⟩⟩
    · have hleast : leastCost? (fun _ => true) its = some it.cost :=
        leastCost?_eq_some_iff.mpr ⟨⟨it, hit, rfl, rfl⟩, fun other ho _ => hle other ho⟩
      have hnot : ¬ limit.apply it.cost < it.cost := not_lt.mpr hwithin
      exact ⟨it, List.mem_filter.mpr ⟨hit, by simp [against, isAbove, hleast, hnot]⟩⟩

end Flagger

/-- Rules that do not go down the list, one after the other, each on what the ones before left. -/
theorem Stage.filter_isKept_runAll_reject (rules : List Flagger)
    (h : ∀ f ∈ rules, f.goesByOrder = false) (its : List Itinerary) (cap : Option CapReport) :
    ∃ done, Stage.runAll (rules.map .reject) ⟨its, cap⟩ = .ok ⟨done, cap⟩ ∧
      done.filter Itinerary.isKept =
        rules.foldl (fun left f => f.survivors left) (its.filter Itinerary.isKept) := by
  induction rules generalizing its with
  | nil => exact ⟨its, rfl, rfl⟩
  | cons f rules ih =>
    obtain ⟨hf, hrules⟩ := List.forall_mem_cons.mp h
    obtain ⟨done, hrun, hkept⟩ := ih hrules (f.run its)
    refine ⟨done, hrun, ?_⟩
    rw [hkept, Flagger.filter_isKept_run_eq_survivors hf, List.foldl_cons]

/-- Preferences with the rules that go by the least cost and no others. -/
def FilterPreferences.relative (transit : TransitLimit) (street dominance : CostLine) :
    FilterPreferences :=
  { FilterPreferences.none with
    transitCost := some transit, streetCost := some street, dearerThanStreet := some dominance,
    dearerThanWalk := true }

namespace Plan
variable (transit : TransitLimit) (street dominance : CostLine) (o : SortOrder)

/-- The rules in the order of their phases: limits on the cost first, then dominance. -/
theorem ruleStages_relative :
    (ofPreferences (.relative transit street dominance) o).ruleStages.map (·.2) =
      [.transitCost transit.line transit.relax, .streetCost street, .dearerThanStreet dominance,
        .dearerThanWalk].map Stage.reject := by
  have hzero : ¬ (0.0 : Float) < 0.0 := by decide
  simp [ruleStages, similarityLimits, decoratorStages, ofPreferences, whenOn, whenSet,
    FilterPreferences.relative, FilterPreferences.none, hzero]

/-- A run of the rules leaves something exactly if what was kept is tenable for street itineraries:
the limit on transit and the rules of dominance never take the last. -/
theorem exists_survivor_relative (its : List Itinerary) :
    ∃ done, Stage.runAll ((ofPreferences (.relative transit street dominance) o).ruleStages.map
        (·.2)) ⟨its, none⟩ = .ok ⟨done, none⟩ ∧
      ((∃ it ∈ done, it.isKept) ↔ Tenable street (its.filter Itinerary.isKept)) := by
  obtain ⟨done, hrun, hkept⟩ := Stage.filter_isKept_runAll_reject
    [.transitCost transit.line transit.relax, .streetCost street, .dearerThanStreet dominance,
      .dearerThanWalk] (by simp [Flagger.goesByOrder]) its none
  refine ⟨done, ruleStages_relative transit street dominance o ▸ hrun, ?_⟩
  calc (∃ it ∈ done, it.isKept)
      ↔ ∃ it, it ∈ done.filter Itinerary.isKept := by simp only [List.mem_filter]
    _ ↔ ∃ it, it ∈ (Flagger.streetCost street).survivors
          ((Flagger.transitCost transit.line transit.relax).survivors
            (its.filter Itinerary.isKept)) := by
        rw [hkept]
        exact Flagger.exists_survivor_dearerThanWalk.trans
          (Flagger.exists_survivor_dearerThanStreet dominance)
    _ ↔ Tenable street (its.filter Itinerary.isKept) :=
        (Flagger.exists_survivor_streetCost street).trans
          (Flagger.tenable_transit_survivors street transit.line transit.relax)

/-- Half of the cost and nothing more: a line that holds no cost above zero within the limit. -/
def halfLine : CostLine := ⟨.zero, 0.5, CostLine.identity.constant_nonneg, by decide⟩

/-- The only itinerary is rejected where it is a walk and measured by half of its own cost. -/
theorem exists_all_rejected : ¬ ∀ (transit : TransitLimit) (street dominance : CostLine)
    (o : SortOrder) (its : List Itinerary), (∃ it ∈ its, it.isKept) →
    ∃ done, Stage.runAll ((ofPreferences (.relative transit street dominance) o).ruleStages.map
        (·.2)) ⟨its, none⟩ = .ok ⟨done, none⟩ ∧ ∃ it ∈ done, it.isKept := by
  intro h
  obtain ⟨done, hrun, it, hit, hkept⟩ := h ⟨.identity, 0.0⟩ halfLine .identity .streetAndDeparture
    [stroll] ⟨stroll, List.mem_singleton_self _, rfl⟩
  obtain ⟨done', hrun', hleft⟩ := Stage.filter_isKept_runAll_reject
    [.transitCost .identity 0.0, .streetCost halfLine, .dearerThanStreet .identity,
      .dearerThanWalk] (by simp [Flagger.goesByOrder]) [stroll] none
  rw [ruleStages_relative, hrun'] at hrun
  cases hrun
  have hmem : it ∈ done.filter Itinerary.isKept := List.mem_filter.mpr ⟨hit, hkept⟩
  have hnone : done.filter Itinerary.isKept = [] := by
    rw [hleft]
    decide +kernel
  rw [hnone] at hmem
  cases hmem

end Plan
end JourneyPages
