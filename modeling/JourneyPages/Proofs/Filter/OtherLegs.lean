import JourneyPages.Proofs.Filter.Verdicts
import JourneyPages.Proofs.Number.Comparison
import JourneyPages.Proofs.Trip.CostLine
import JourneyPages.Proofs.Trip.Order

/-!
The rule against dear other legs. Its limit is a multiple of the least cost outside the trips that
all share, and nothing ties the costs of legs to those of itineraries: a least cost below zero makes
the limit lower still, and then the rule is against the whole list. Main statement: the cheapest
are spared exactly if no cost is below zero, and a smaller factor never spares more.
-/
namespace JourneyPages

open Number

namespace Flagger
variable {its : List Itinerary} {it : Itinerary}

/-- The rule is against an itinerary of the list. -/
def Rejects (f : Flagger) (its : List Itinerary) (it : Itinerary) : Prop :=
  (it, true) ∈ its.zip (f.verdicts its)

theorem rejects_iff {f : Flagger} (h : f.goesByOrder = false) :
    f.Rejects its it ↔ it ∈ its ∧ f.against its it := by
  have hzip : its.zip (its.map (f.against its)) = its.map fun x => (x, f.against its x) := by
    conv_lhs => arg 1; rw [← List.map_id its]
    exact List.zip_map'
  simp only [Rejects, verdicts_eq_map h, hzip, List.mem_map, Prod.mk.injEq]
  constructor
  · rintro ⟨x, hx, rfl, hagainst⟩
    exact ⟨hx, hagainst⟩
  · rintro ⟨hit, hagainst⟩
    exact ⟨it, hit, rfl, hagainst⟩

/-- The cost of an itinerary outside the trips that it shares with all the others. -/
def otherCost (its : List Itinerary) (it : Itinerary) : Cost := costOutside (sharedTrips its) it

/-- No other itinerary of the list costs less outside the trips that all share. -/
structure IsCheapest (its : List Itinerary) (it : Itinerary) : Prop where
  mem : it ∈ its
  le : ∀ other ∈ its, otherCost its it ≤ otherCost its other

theorem IsCheapest.least?_eq (h : IsCheapest its it) :
    Cost.least? (otherCosts its) = some (otherCost its it) := by
  rw [Cost.least?_eq_some_iff]
  exact ⟨List.mem_map_of_mem h.mem, List.forall_mem_map.mpr h.le⟩

theorem exists_isCheapest (h : its ≠ []) : ∃ it, IsCheapest its it := by
  cases hleast : Cost.least? (otherCosts its) with
  | none =>
    cases its with
    | nil => exact absurd rfl h
    | cons it rest => cases hleast
  | some c =>
    obtain ⟨hmem, hle⟩ := Cost.least?_eq_some_iff.mp hleast
    obtain ⟨it, hit, rfl⟩ := List.mem_map.mp hmem
    exact ⟨it, hit, List.forall_mem_map.mp hle⟩

/-- The rule compares with one of the cheapest. -/
theorem IsCheapest.rejects_iff {best : Itinerary} (hbest : IsCheapest its best) (factor : Float) :
    (dearOtherLegs factor).Rejects its it ↔
      it ∈ its ∧ (otherCost its best).toFloat * factor < (otherCost its it).toFloat := by
  rw [Flagger.rejects_iff rfl, against, hbest.least?_eq, Option.map_some, Option.any_some,
    decide_eq_true_eq]
  rfl

/-- With a least cost below zero the rule is against all. -/
theorem rejects_of_neg {factor : Float} (h : 1.0 < factor) {best : Itinerary}
    (hbest : IsCheapest its best) (hneg : (otherCost its best).value < 0) (hit : it ∈ its) :
    (dearOtherLegs factor).Rejects its it := by
  obtain ⟨hfinite, hvalue⟩ := (otherCost its best).value_toFloat
  obtain ⟨hfinite', hvalue'⟩ := (otherCost its it).value_toFloat
  have hbelow : (Binary64.ofFloat (otherCost its best).toFloat).value ≤ -1 := by
    rw [hvalue]
    exact_mod_cast Int.le_sub_one_of_lt hneg
  refine (hbest.rejects_iff factor).mpr ⟨hit, ?_⟩
  refine Binary64.lt_of_lt_of_value_le (Binary64.mul_lt_self hfinite hbelow h) hfinite' ?_
  rw [hvalue, hvalue']
  exact_mod_cast hbest.le it hit

/-- With a least cost that is not below zero the rule spares the cheapest. -/
theorem not_rejects_of_nonneg {factor : Float} (h : 1.0 < factor) (hit : IsCheapest its it)
    (hpos : 0 ≤ (otherCost its it).value) : ¬ (dearOtherLegs factor).Rejects its it := by
  obtain ⟨hfinite, hvalue⟩ := (otherCost its it).value_toFloat
  rw [hit.rejects_iff]
  rintro ⟨-, hless⟩
  refine Binary64.not_mul_lt_self hfinite ?_ h hless
  rw [hvalue]
  exact_mod_cast hpos

/-- A smaller factor spares none that a larger one is against. -/
theorem Rejects.of_smaller {factor smaller : Float} (hits : its ≠ []) (hone : 1.0 < smaller)
    (hless : smaller < factor) (h : (dearOtherLegs factor).Rejects its it) :
    (dearOtherLegs smaller).Rejects its it := by
  obtain ⟨best, hbest⟩ := exists_isCheapest hits
  obtain ⟨hfinite, hvalue⟩ := (otherCost its best).value_toFloat
  obtain ⟨hit, hdear⟩ := (hbest.rejects_iff factor).mp h
  rcases lt_or_ge (otherCost its best).value 0 with hneg | hpos
  · exact rejects_of_neg hone hbest hneg hit
  · refine (hbest.rejects_iff smaller).mpr ⟨hit, ?_⟩
    refine Binary64.mul_lt_of_mul_lt hfinite ?_ hone hless hdear
    rw [hvalue]
    exact_mod_cast hpos

/-- The cheapest are spared, and not all are rejected, exactly if no itinerary costs less than
nothing outside the shared trips. -/
theorem spares_cheapest_iff {factor : Float} (h : 1.0 < factor) (hits : its ≠ []) :
    ((∀ it, IsCheapest its it → ¬ (dearOtherLegs factor).Rejects its it) ↔
      ∀ it ∈ its, 0 ≤ (otherCost its it).value) ∧
    ((∃ it ∈ its, ¬ (dearOtherLegs factor).Rejects its it) ↔
      ∀ it ∈ its, 0 ≤ (otherCost its it).value) ∧
    ∀ smaller, 1.0 < smaller → smaller < factor → ∀ it,
      (dearOtherLegs factor).Rejects its it → (dearOtherLegs smaller).Rejects its it := by
  obtain ⟨best, hbest⟩ := exists_isCheapest hits
  -- Either no cost is below zero, or that of the cheapest is.
  have hleast : (∀ it ∈ its, 0 ≤ (otherCost its it).value) ↔ 0 ≤ (otherCost its best).value :=
    ⟨fun hall => hall best hbest.mem, fun hpos it hit => hpos.trans (hbest.le it hit)⟩
  have hspared : ∀ {it}, IsCheapest its it → 0 ≤ (otherCost its best).value →
      ¬ (dearOtherLegs factor).Rejects its it := fun hit hpos =>
    not_rejects_of_nonneg h hit (hleast.mpr hpos _ hit.mem)
  refine ⟨?_, ?_, fun smaller hone hless it => .of_smaller hits hone hless⟩
  · rw [hleast]
    constructor
    · intro hall
      by_contra hneg
      exact hall best hbest (rejects_of_neg h hbest (not_le.mp hneg) hbest.mem)
    · exact fun hpos it hit => hspared hit hpos
  · rw [hleast]
    constructor
    · rintro ⟨it, hit, hnot⟩
      by_contra hneg
      exact hnot (rejects_of_neg h hbest (not_le.mp hneg) hit)
    · exact fun hpos => ⟨best, hbest.mem, hspared hbest hpos⟩

/-- A walk that is dear beside a ride. -/
theorem spares_cheapest_iff_stroll : (1.0 : Float) < 2.0 ∧ [slowRide, stroll] ≠ [] ∧
    (∀ it, IsCheapest [slowRide, stroll] it →
      ¬ (dearOtherLegs 2.0).Rejects [slowRide, stroll] it) ∧
    (dearOtherLegs 2.0).Rejects [slowRide, stroll] stroll ∧
    (dearOtherLegs 1.5).Rejects [slowRide, stroll] stroll := by
  have hone : (1.0 : Float) < 2.0 := by decide +kernel
  have hdear : (dearOtherLegs 2.0).Rejects [slowRide, stroll] stroll := by
    have hverdicts : (dearOtherLegs 2.0).verdicts [slowRide, stroll] = [false, true] := by
      decide +kernel
    simp [Rejects, hverdicts]
  obtain ⟨hcheapest, -, hsmaller⟩ := spares_cheapest_iff hone (List.cons_ne_nil slowRide [stroll])
  exact ⟨hone, by simp, hcheapest.mpr (by decide +kernel), hdear,
    hsmaller 1.5 (by decide +kernel) (by decide +kernel) stroll hdear⟩

end Flagger

/-- A ride that costs less than its leg. -/
def passRide : Itinerary := .ofLeg { slowLeg with cost := .saturate 200 } (.saturate 100)

/-- The rule rejects what is alone in its list. -/
theorem exists_cheapest_rejected : ¬ ∀ (factor : Float) (its : List Itinerary), 1.0 < factor →
    its ≠ [] → ∀ it, Flagger.IsCheapest its it →
      ¬ (Flagger.dearOtherLegs factor).Rejects its it := by
  intro hall
  have hverdicts : (Flagger.dearOtherLegs 2.0).verdicts [passRide] = [true] := by decide +kernel
  refine hall 2.0 [passRide] (by decide +kernel) (by simp) passRide ⟨by simp, ?_⟩ ?_
  · simp [Cost.le_iff]
  · simp [Flagger.Rejects, hverdicts]

end JourneyPages
