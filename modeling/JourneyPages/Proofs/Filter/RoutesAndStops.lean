import JourneyPages.Filter.Grouping
import JourneyPages.Proofs.Trip.Order
import Mathlib.Data.List.Forall2

/-!
Keys by routes and stops. Such a key lists the routes of all rides and, in one list of its own, the
stops at which they are boarded and left, without those that are not known. Main statement: two
itineraries make the same rides exactly if they have the same key and do not know their stops at the
same places. Where all stops are known, the key alone tells.
-/
namespace JourneyPages

/-- Two rides on the same route from the same stop to the same stop. A stop that is not known is
the same as another one that is not known. -/
structure Leg.SameRide (l m : Leg) : Prop where
  route : l.route? = m.route?
  origin : l.origin.stop = m.origin.stop
  destination : l.destination.stop = m.destination.stop

namespace Itinerary

/-- Leg by leg the same rides. -/
def SameRides (a b : Itinerary) : Prop := List.Forall₂ Leg.SameRide a.transitLegs b.transitLegs

/-- The stops at which the transit legs begin and end, one behind the other. -/
def calls (it : Itinerary) : List (Option ScopedId) :=
  it.transitLegs.flatMap fun l => [l.origin.stop, l.destination.stop]

end Itinerary

/-- The entries that are there and the places of those that are not make up a list. -/
theorem eq_iff_filterMap_id {α : Type} {os ps : List (Option α)} :
    os = ps ↔ os.filterMap id = ps.filterMap id ∧ os.map Option.isNone = ps.map Option.isNone := by
  refine ⟨fun h => h ▸ ⟨rfl, rfl⟩, fun h => ?_⟩
  induction os generalizing ps with
  | nil => simpa using h.2.symm
  | cons o os ih =>
    obtain ⟨hsome, hnone⟩ := h
    obtain ⟨p, ps, rfl⟩ := List.exists_cons_of_ne_nil (l := ps) (by rintro rfl; simp at hnone)
    obtain ⟨hplace, hrest⟩ := List.cons.inj hnone
    cases o with
    | none =>
      cases p with
      | none => rw [ih ⟨by simpa using hsome, hrest⟩]
      | some y => cases hplace
    | some x =>
      cases p with
      | none => cases hplace
      | some y =>
        obtain ⟨rfl, htail⟩ : x = y ∧ os.filterMap id = ps.filterMap id := by simpa using hsome
        rw [ih ⟨htail, hrest⟩]

/-- Where nothing is missing, the entries that are there make up the list. -/
theorem eq_iff_filterMap_id_of_not_mem {α : Type} {os ps : List (Option α)} (ho : none ∉ os)
    (hp : none ∉ ps) : os = ps ↔ os.filterMap id = ps.filterMap id := by
  have hwhole : ∀ {qs : List (Option α)}, none ∉ qs → (qs.filterMap id).map some = qs := by
    intro qs hq
    rw [List.map_filterMap_some_eq_filter_map_isSome, List.map_id, List.filter_eq_self]
    exact fun q hmem => Option.isSome_iff_ne_none.mpr fun hnone => hq (hnone ▸ hmem)
  refine ⟨fun h => h ▸ rfl, fun h => ?_⟩
  rw [← hwhole ho, h, hwhole hp]

/-- Legs make the same rides if their routes are the same, and their stops all in one list. -/
theorem forall₂_sameRide_iff {xs ys : List Leg} : List.Forall₂ Leg.SameRide xs ys ↔
    xs.map Leg.route? = ys.map Leg.route? ∧
      (xs.flatMap fun l => [l.origin.stop, l.destination.stop]) =
        ys.flatMap fun l => [l.origin.stop, l.destination.stop] := by
  induction xs generalizing ys with
  | nil => cases ys <;> simp
  | cons x xs ih =>
    cases ys with
    | nil => simp
    | cons y ys =>
      rw [List.forall₂_cons, ih]
      simp only [List.map_cons, List.flatMap_cons, List.cons_append, List.nil_append,
        List.cons.injEq]
      constructor
      · rintro ⟨⟨hroute, horigin, hdestination⟩, hroutes, hstops⟩
        exact ⟨⟨hroute, hroutes⟩, horigin, hdestination, hstops⟩
      · rintro ⟨⟨hroute, hroutes⟩, horigin, hdestination, hstops⟩
        exact ⟨⟨hroute, horigin, hdestination⟩, hroutes, hstops⟩

/-- Every transit leg has a route. -/
theorem map_route?_transitLegs (it : Itinerary) :
    it.transitLegs.map Leg.route? = (it.transitLegs.filterMap Leg.route?).map some := by
  rw [List.map_filterMap_some_eq_filter_map_isSome]
  refine (List.filter_eq_self.mpr ?_).symm
  rw [List.forall_mem_map]
  intro l hl
  have htransit : l.isTransit = true := List.of_mem_filter hl
  unfold Leg.isTransit Leg.trip? at htransit
  unfold Leg.route?
  split at htransit
  · cases htransit
  · rfl

theorem transitLegs_eq_nil_iff {it : Itinerary} : it.transitLegs = [] ↔ it.hasTransit = false := by
  simp [Itinerary.transitLegs, Itinerary.hasTransit, List.filter_eq_nil_iff]

namespace Grouping

/-- The key knows the route of each leg, and all stops but those that are missing. -/
theorem key?_routesAndStops_eq_iff {a b : Itinerary} :
    routesAndStops.key? a = routesAndStops.key? b ↔
      a.transitLegs.map Leg.route? = b.transitLegs.map Leg.route? ∧
        a.calls.filterMap id = b.calls.filterMap id := by
  have hroutes : a.transitLegs.map Leg.route? = b.transitLegs.map Leg.route? ↔
      a.transitLegs.filterMap Leg.route? = b.transitLegs.filterMap Leg.route? := by
    rw [map_route?_transitLegs, map_route?_transitLegs,
      List.map_inj_right fun _ _ => Option.some.inj]
  cases ha : a.hasTransit <;> cases hb : b.hasTransit
  case true.true =>
    rw [hroutes]
    simp [key?, ha, hb, keyOfLegs, Itinerary.calls, List.filterMap_flatMap]
  case false.false =>
    simp [key?, ha, hb, Itinerary.calls, transitLegs_eq_nil_iff.mpr ha,
      transitLegs_eq_nil_iff.mpr hb]
  case true.false =>
    have hsome : a.transitLegs ≠ [] := fun hnil => by simp [transitLegs_eq_nil_iff.mp hnil] at ha
    simp [key?, ha, hb, transitLegs_eq_nil_iff.mpr hb, hsome]
  case false.true =>
    have hsome : b.transitLegs ≠ [] := fun hnil => by simp [transitLegs_eq_nil_iff.mp hnil] at hb
    simp [key?, ha, hb, transitLegs_eq_nil_iff.mpr ha, hsome]

end Grouping

/-- The same rides are an equal key and gaps at the same places; equal keys are the same rides
unless stops are missing. -/
theorem sameRides_iff (a b : Itinerary) :
    (a.SameRides b ↔ Grouping.routesAndStops.key? a = Grouping.routesAndStops.key? b ∧
      a.calls.map Option.isNone = b.calls.map Option.isNone) ∧
    (none ∉ a.calls → none ∉ b.calls →
      (Grouping.routesAndStops.key? a = Grouping.routesAndStops.key? b ↔ a.SameRides b)) := by
  have hrides : a.SameRides b ↔ a.transitLegs.map Leg.route? = b.transitLegs.map Leg.route? ∧
      a.calls = b.calls := forall₂_sameRide_iff
  rw [hrides, Grouping.key?_routesAndStops_eq_iff]
  refine ⟨?_, fun ha hb => ?_⟩
  · have hcalls : a.calls = b.calls ↔ a.calls.filterMap id = b.calls.filterMap id ∧
        a.calls.map Option.isNone = b.calls.map Option.isNone := eq_iff_filterMap_id
    rw [and_assoc, hcalls]
  · rw [← eq_iff_filterMap_id_of_not_mem ha hb]

/-- A ride that begins and ends at the given stops. -/
def Itinerary.rideBetween (origin destination : Option ScopedId) : Itinerary :=
  .ofLeg { slowLeg with origin := ⟨"A", origin, none⟩, destination := ⟨"B", destination, none⟩ }
    (.saturate 1000)

/-- One ride begins where the other one ends. -/
theorem exists_same_key : ¬ ∀ a b : Itinerary, a.hasTransit → b.hasTransit →
    (Grouping.routesAndStops.key? a = Grouping.routesAndStops.key? b ↔ a.SameRides b) := by
  intro hall
  let stop : ScopedId := ⟨"F", "S", by decide, by decide, by decide⟩
  have hsame := (hall (.rideBetween (some stop) none) (.rideBetween none (some stop)) rfl rfl).mp
    (by decide +kernel)
  exact absurd (forall₂_sameRide_iff.mp hsame).2 (by decide +kernel)

end JourneyPages
