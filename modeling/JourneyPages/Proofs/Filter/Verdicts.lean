import JourneyPages.Filter.Flagger
import Mathlib.Data.Int.Order.Basic
import Mathlib.Data.List.Perm.Basic
import Mathlib.Order.Basic

/-!
Verdicts and the order of a list. Most rules ask what other itineraries there are but not where they
stand: least costs and shared trips are the same for every order. The two rules that go down the
list are left out here.
-/
namespace JourneyPages

namespace Cost

instance (priority := low) : LinearOrder Cost :=
  LinearOrder.lift' value fun _ _ => Cost.ext

/-- A scan for the least cost ends with one that it has seen and that is below all of them. -/
theorem foldl_least (c : Cost) (cs : List Cost) :
    let m := cs.foldl (fun a b => if b < a then b else a) c
    m ∈ c :: cs ∧ ∀ x ∈ c :: cs, m ≤ x := by
  induction cs generalizing c with
  | nil => simp
  | cons d cs ih =>
    dsimp only [List.foldl_cons]
    generalize hnext : (if d < c then d else c) = next
    have hseen : (next = c ∨ next = d) ∧ next ≤ c ∧ next ≤ d := by
      split at hnext
      case isTrue hlt => exact hnext ▸ ⟨.inr rfl, hlt.le, le_rfl⟩
      case isFalse hnot => exact hnext ▸ ⟨.inl rfl, le_rfl, not_lt.mp hnot⟩
    obtain ⟨hmem, hle⟩ := ih next
    simp only [List.forall_mem_cons] at hle ⊢
    refine ⟨?_, hle.1.trans hseen.2.1, hle.1.trans hseen.2.2, hle.2⟩
    rcases List.mem_cons.mp hmem with heq | hin
    · rw [heq]
      rcases hseen.1 with rfl | rfl <;> simp
    · simp [hin]

theorem least?_eq_some_iff {cs : List Cost} {m : Cost} :
    least? cs = some m ↔ m ∈ cs ∧ ∀ c ∈ cs, m ≤ c := by
  cases cs with
  | nil => simp [least?]
  | cons c cs =>
    obtain ⟨hmem, hle⟩ := foldl_least c cs
    rw [least?, Option.some.injEq]
    constructor
    · rintro rfl
      exact ⟨hmem, hle⟩
    · rintro ⟨hm, hmle⟩
      exact le_antisymm (hle m hm) (hmle _ hmem)

theorem least?_eq_of_perm {xs ys : List Cost} (h : xs.Perm ys) : least? xs = least? ys := by
  apply Option.ext
  intro m
  rw [least?_eq_some_iff, least?_eq_some_iff, h.mem_iff]
  simp only [h.mem_iff]

end Cost

namespace Flagger

/-- The verdict of a rule on an itinerary depends on what others there are, and not on their
order. -/
def Impartial (f : Flagger) : Prop :=
  ∃ against : List Itinerary → Itinerary → Bool,
    (∀ its, f.verdicts its = its.map (against its)) ∧
    ∀ xs ys, xs.Perm ys → against xs = against ys

variable {xs ys : List Itinerary}

theorem isDearTransit_eq_of_perm (limit : CostLine) (relax : Float) (h : xs.Perm ys) :
    isDearTransit limit relax xs = isDearTransit limit relax ys := by
  funext it
  rw [isDearTransit, isDearTransit, h.any_eq]

theorem leastCost?_eq_of_perm (kind : Itinerary → Bool) (h : xs.Perm ys) :
    leastCost? kind xs = leastCost? kind ys :=
  Cost.least?_eq_of_perm ((h.filter kind).map Itinerary.cost)

theorem mem_sharedTrips {its : List Itinerary} {trip : ScopedId} :
    trip ∈ sharedTrips its ↔ its ≠ [] ∧ ∀ it ∈ its, trip ∈ tripsOf it := by
  cases its <;> simp [sharedTrips]

theorem costOutside_congr {trips trips' : List ScopedId}
    (h : ∀ trip, trip ∈ trips ↔ trip ∈ trips') : costOutside trips = costOutside trips' := by
  funext it
  simp only [costOutside, h]

theorem costOutside_sharedTrips_eq_of_perm (h : xs.Perm ys) :
    costOutside (sharedTrips xs) = costOutside (sharedTrips ys) := by
  apply costOutside_congr
  intro trip
  have hempty : xs ≠ [] ↔ ys ≠ [] := by
    rw [← List.length_pos_iff, ← List.length_pos_iff, h.length_eq]
  rw [mem_sharedTrips, mem_sharedTrips, hempty]
  simp only [h.mem_iff]

theorem least?_otherCosts_eq_of_perm (h : xs.Perm ys) :
    Cost.least? (otherCosts xs) = Cost.least? (otherCosts ys) := by
  rw [otherCosts, otherCosts, costOutside_sharedTrips_eq_of_perm h]
  exact Cost.least?_eq_of_perm (h.map _)

/-- Whether a rule goes down the list: by a count, or by a scan. -/
def goesByOrder : Flagger → Bool
  | beyondCount .. | sameEndTrip => true
  | _ => false

/-- The verdict on an itinerary beside others, of a rule that does not go down the list. -/
def against (f : Flagger) (its : List Itinerary) (it : Itinerary) : Bool :=
  match f with
  | transitCost limit relax => isDearTransit limit relax its it
  | streetCost limit =>
    it.isStreetOnly && isAbove ((leastCost? (fun _ => true) its).map limit.apply) it.cost
  | dearerThanStreet limit =>
    it.hasTransit && isAbove ((leastCost? Itinerary.isStreetOnly its).map limit.apply) it.cost
  | dearerThanWalk => it.hasTransit && isAbove (leastCost? Itinerary.isWalkOnly its) it.cost
  | dearOtherLegs factor =>
    ((Cost.least? (otherCosts its)).map fun least => least.toFloat * factor).any fun limit =>
      decide (limit < (costOutside (sharedTrips its) it).toFloat)
  | f => f.rejectsAlone it

/-- The rule is against the itinerary at a place of the list. -/
def RejectsAt (f : Flagger) (its : List Itinerary) (i : Nat) : Prop :=
  (f.verdicts its)[i]? = some true

variable {f : Flagger} (h : f.goesByOrder = false)
include h

theorem verdicts_eq_map (its : List Itinerary) : f.verdicts its = its.map (f.against its) := by
  cases f with
  | dearOtherLegs factor =>
    rw [verdicts]
    conv_lhs => rw [otherCosts]
    rw [List.map_map]
    rfl
  | beyondCount | sameEndTrip => cases h
  | _ => rfl

theorem rejectsAt_iff {its : List Itinerary} {it : Itinerary} {i : Nat} (hi : its[i]? = some it) :
    f.RejectsAt its i ↔ f.against its it := by
  rw [RejectsAt, verdicts_eq_map h, List.getElem?_map, hi, Option.map_some, Option.some.injEq]

theorem against_eq_of_perm (hperm : xs.Perm ys) : f.against xs = f.against ys := by
  cases f with
  | transitCost limit relax => exact isDearTransit_eq_of_perm limit relax hperm
  | streetCost | dearerThanStreet | dearerThanWalk =>
    funext it
    simp only [against, leastCost?_eq_of_perm _ hperm]
  | dearOtherLegs factor =>
    funext it
    simp only [against, least?_otherCosts_eq_of_perm hperm,
      costOutside_sharedTrips_eq_of_perm hperm]
  | beyondCount | sameEndTrip => cases h
  | _ => rfl

theorem impartial : f.Impartial :=
  ⟨f.against, verdicts_eq_map h, fun _ _ => against_eq_of_perm h⟩

end Flagger
end JourneyPages
