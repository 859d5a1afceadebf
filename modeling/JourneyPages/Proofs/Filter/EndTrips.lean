import JourneyPages.Proofs.Filter.Settings

/-!
First and last trips. The scan goes down the list from the cheapest itinerary on and knows the ends
of its survivors only. So survivors have ends of their own, and whatever is rejected shares an end
with a survivor in front of it.
-/
namespace JourneyPages

namespace Itinerary

/-- The trip of the first transit leg. -/
def firstTrip? (it : Itinerary) : Option ScopedId := it.transitLegs.head?.bind Leg.trip?

/-- The trip of the last transit leg. -/
def lastTrip? (it : Itinerary) : Option ScopedId := it.transitLegs.getLast?.bind Leg.trip?

theorem mem_endTrips?_iff {it : Itinerary} {x : ScopedId × ScopedId} :
    x ∈ it.endTrips? ↔ it.firstTrip? = some x.1 ∧ it.lastTrip? = some x.2 := by
  simp only [endTrips?, firstTrip?, lastTrip?, bind, Option.mem_def, Option.bind_eq_some_iff]
  grind

/-- Each transit leg has a trip. -/
theorem exists_mem_endTrips?_iff {it : Itinerary} : (∃ x, x ∈ it.endTrips?) ↔ it.hasTransit := by
  have htransit : it.hasTransit ↔ it.transitLegs ≠ [] := by
    simp [hasTransit, transitLegs, List.filter_eq_nil_iff]
  rw [htransit]
  constructor
  · rintro ⟨x, hx⟩ hnil
    simp [endTrips?, hnil] at hx
  · intro hne
    have htrip : ∀ l ∈ it.transitLegs, ∃ trip, l.trip? = some trip := by
      intro l hl
      have hl : l.isTransit := List.of_mem_filter hl
      exact Option.isSome_iff_exists.mp hl
    obtain ⟨first, hfirst⟩ := htrip _ (List.head_mem hne)
    obtain ⟨last, hlast⟩ := htrip _ (List.getLast_mem hne)
    refine ⟨(first, last), mem_endTrips?_iff.mpr ⟨?_, ?_⟩⟩
    · rw [firstTrip?, List.head?_eq_some_head hne]
      exact hfirst
    · rw [lastTrip?, List.getLast?_eq_some_getLast hne]
      exact hlast

theorem ends_eq_iff {a b : Itinerary} {x y : ScopedId × ScopedId} (hx : x ∈ a.endTrips?)
    (hy : y ∈ b.endTrips?) : (a.firstTrip? = b.firstTrip? ↔ x.1 = y.1) ∧
      (a.lastTrip? = b.lastTrip? ↔ x.2 = y.2) := by
  rw [mem_endTrips?_iff] at hx hy
  rw [hx.1, hx.2, hy.1, hy.2, Option.some.injEq, Option.some.injEq]
  exact ⟨Iff.rfl, Iff.rfl⟩

end Itinerary

namespace Flagger

/-- Neither the first nor the last trips of two itineraries are the same. -/
def EndApart (a b : Itinerary) : Prop :=
  ∀ x ∈ a.endTrips?, ∀ y ∈ b.endTrips?, x.1 ≠ y.1 ∧ x.2 ≠ y.2

theorem EndApart.symm {a b : Itinerary} (h : EndApart a b) : EndApart b a :=
  fun y hy x hx => ⟨(h x hx y hy).1.symm, (h x hx y hy).2.symm⟩

/-- The survivors of a scan. -/
def scanned (firsts lasts : List ScopedId) (its : List Itinerary) : List Itinerary :=
  ((its.zip (endTripVerdicts firsts lasts its)).filter (!·.2)).map (·.1)

section scanned
variable {firsts lasts : List ScopedId} {it : Itinerary} {rest : List Itinerary}

theorem scanned_cons_of_none (h : it.endTrips? = none) :
    scanned firsts lasts (it :: rest) = it :: scanned firsts lasts rest := by
  simp [scanned, endTripVerdicts, h]

variable {first last : ScopedId} (h : it.endTrips? = some (first, last))
include h

theorem scanned_cons_of_known (known : first ∈ firsts ∨ last ∈ lasts) :
    scanned firsts lasts (it :: rest) = scanned firsts lasts rest := by
  simp [scanned, endTripVerdicts, h, known]

theorem scanned_cons_of_new (new : ¬ (first ∈ firsts ∨ last ∈ lasts)) :
    scanned firsts lasts (it :: rest) = it :: scanned (first :: firsts) (last :: lasts) rest := by
  simp [scanned, endTripVerdicts, h, new]

end scanned

/-- Survivors of a scan have ends of their own, and none that the scan knew before. -/
theorem scanned_apart (firsts lasts : List ScopedId) (its : List Itinerary) :
    (scanned firsts lasts its).Pairwise EndApart ∧
      ∀ it ∈ scanned firsts lasts its, ∀ x ∈ it.endTrips?, x.1 ∉ firsts ∧ x.2 ∉ lasts := by
  induction firsts, lasts, its using endTripVerdicts.induct with
  | case1 => simp [scanned, endTripVerdicts]
  | case2 firsts lasts it rest hit ih =>
    obtain ⟨hapart, hnew⟩ := ih
    rw [scanned_cons_of_none hit, List.pairwise_cons, List.forall_mem_cons]
    exact ⟨⟨fun _ _ => by simp [EndApart, hit], hapart⟩, by simp [hit], hnew⟩
  | case3 firsts lasts it rest first last hit hknown ih =>
    rwa [scanned_cons_of_known hit hknown]
  | case4 firsts lasts it rest first last hit hknown ih =>
    obtain ⟨hapart, hnew⟩ := ih
    simp only [List.mem_cons, not_or] at hnew hknown
    rw [scanned_cons_of_new hit (by simpa using hknown), List.pairwise_cons, List.forall_mem_cons]
    refine ⟨⟨fun other ho => ?_, hapart⟩, ?_, fun other ho y hy => ?_⟩
    · intro x hx y hy
      cases hit.symm.trans hx
      have hy := hnew other ho y hy
      exact ⟨Ne.symm hy.1.1, Ne.symm hy.2.1⟩
    · intro x hx
      cases hit.symm.trans hx
      exact hknown
    · have hy := hnew other ho y hy
      exact ⟨hy.1.2, hy.2.2⟩

/-- A scan is against none where all have ends of their own. -/
theorem endTripVerdicts_of_apart {firsts lasts : List ScopedId} {its : List Itinerary}
    (hapart : its.Pairwise EndApart)
    (hnew : ∀ it ∈ its, ∀ x ∈ it.endTrips?, x.1 ∉ firsts ∧ x.2 ∉ lasts) :
    ∀ v ∈ endTripVerdicts firsts lasts its, v = false := by
  induction its generalizing firsts lasts with
  | nil => nofun
  | cons it rest ih =>
    obtain ⟨hit, hrest⟩ := List.pairwise_cons.mp hapart
    obtain ⟨hfresh, hnew⟩ := List.forall_mem_cons.mp hnew
    cases hends : it.endTrips? with
    | none =>
      rw [endTripVerdicts, hends, List.forall_mem_cons]
      exact ⟨rfl, ih hrest hnew⟩
    | some x =>
      have hx := hfresh x hends
      rw [endTripVerdicts, hends]
      simp only [hx.1, hx.2, or_self, if_false, List.forall_mem_cons, true_and]
      refine ih hrest fun other ho y hy => ?_
      have hne := hit other ho x hends y hy
      have hy := hnew other ho y hy
      simp only [List.mem_cons, not_or]
      exact ⟨⟨hne.1.symm, hy.1⟩, hne.2.symm, hy.2⟩

/-- Whatever a scan is against has an end that the scan knew before, or shares one with a survivor
in front of it. -/
theorem shares_end_of_verdict {R : Itinerary → Itinerary → Prop} (firsts lasts : List ScopedId)
    {its : List Itinerary} (hR : its.Pairwise R) {it : Itinerary}
    (hit : (it, true) ∈ its.zip (endTripVerdicts firsts lasts its)) :
    ∃ x ∈ it.endTrips?, x.1 ∈ firsts ∨ x.2 ∈ lasts ∨
      ∃ other ∈ scanned firsts lasts its, R other it ∧
        ∃ y ∈ other.endTrips?, y.1 = x.1 ∨ y.2 = x.2 := by
  induction firsts, lasts, its using endTripVerdicts.induct with
  | case1 => simp at hit
  | case2 firsts lasts front rest hfront ih =>
    simp only [endTripVerdicts, hfront, List.zip_cons_cons, List.mem_cons, Prod.mk.injEq,
      Bool.true_eq_false, and_false, false_or] at hit
    obtain ⟨x, hx, hshared⟩ := ih hR.of_cons hit
    rw [scanned_cons_of_none hfront]
    refine ⟨x, hx, hshared.imp_right (Or.imp_right ?_)⟩
    rintro ⟨other, hother, hends⟩
    exact ⟨other, List.mem_cons_of_mem front hother, hends⟩
  | case3 firsts lasts front rest first last hfront hknown ih =>
    simp only [endTripVerdicts, hfront, if_pos hknown, List.zip_cons_cons, List.mem_cons,
      Prod.mk.injEq, and_true] at hit
    rw [scanned_cons_of_known hfront hknown]
    rcases hit with rfl | hit
    · exact ⟨(first, last), hfront, hknown.imp_right Or.inl⟩
    · exact ih hR.of_cons hit
  | case4 firsts lasts front rest first last hfront hnew ih =>
    simp only [endTripVerdicts, hfront, if_neg hnew, List.zip_cons_cons, List.mem_cons,
      Prod.mk.injEq, Bool.true_eq_false, and_false, false_or] at hit
    obtain ⟨x, hx, hshared⟩ := ih hR.of_cons hit
    rw [scanned_cons_of_new hfront hnew]
    -- What the scan has learnt since are the ends of the one in front.
    have hahead : x.1 = first ∨ x.2 = last → ∃ other ∈ front :: scanned (first :: firsts)
        (last :: lasts) rest, R other it ∧ ∃ y ∈ other.endTrips?, y.1 = x.1 ∨ y.2 = x.2 :=
      fun hends => ⟨front, List.mem_cons_self, List.rel_of_pairwise_cons hR
        (List.of_mem_zip hit).1, (first, last), hfront, hends.imp Eq.symm Eq.symm⟩
    refine ⟨x, hx, ?_⟩
    rcases hshared with hfirst | hlast | ⟨other, hother, hends⟩
    · rcases List.mem_cons.mp hfirst with hfirst | hfirst
      · exact .inr (.inr (hahead (.inl hfirst)))
      · exact .inl hfirst
    · rcases List.mem_cons.mp hlast with hlast | hlast
      · exact .inr (.inr (hahead (.inr hlast)))
      · exact .inr (.inl hlast)
    · exact .inr (.inr ⟨other, List.mem_cons_of_mem front hother, hends⟩)

/-- Two rides on one trip, and a walk between them. -/
example : sameEndTrip.verdicts [slowRide, stroll, fastRide] = [false, false, true] := by decide

/-- The first transit of a list survives a scan that knows no ends yet. -/
theorem mem_scanned_of_filter {its rest : List Itinerary} {first : Itinerary}
    (h : its.filter Itinerary.hasTransit = first :: rest) : first ∈ scanned [] [] its := by
  induction its with
  | nil => cases h
  | cons it its ih =>
    cases hit : it.endTrips? with
    | none =>
      have hstreet : ¬ it.hasTransit := by simp [← Itinerary.exists_mem_endTrips?_iff, hit]
      rw [List.filter_cons_of_neg hstreet] at h
      rw [scanned_cons_of_none hit]
      exact List.mem_cons_of_mem it (ih h)
    | some x =>
      rw [List.filter_cons_of_pos (Itinerary.exists_mem_endTrips?_iff.mp ⟨x, hit⟩)] at h
      cases h
      rw [scanned_cons_of_new hit (by simp)]
      exact List.mem_cons_self

/-- What the rule leaves are the survivors of one scan. -/
theorem filter_isKept_run_sameEndTrip (its : List Itinerary) :
    (sameEndTrip.run its).filter Itinerary.isKept = scanned [] [] (its.filter Itinerary.isKept) :=
  filter_isKept_rejectBy_eq_zip _ (length_verdicts _ _)

end Flagger

namespace Stage

/-- What stages that go by first and last trips make of a list: kept transit has first and last
trips of its own, whatever they reject shares one with kept transit that is not above it in the
order of costs, and of the transit that comes in, the cheapest stays. -/
structure PrunesEndTrips (stages : List Stage) (its done : List Itinerary) : Prop where
  apart : (done.filter fun it => it.hasTransit && it.isKept).Pairwise fun a b =>
    a.firstTrip? ≠ b.firstTrip? ∧ a.lastTrip? ≠ b.lastTrip?
  shares it (rejected : RejectsIn stages its (.reject .sameEndTrip) it) : it.hasTransit ∧
    ∃ other ∈ done, other.isKept ∧ other.hasTransit ∧ (other.key.compareCost it.key).isLE ∧
      (other.firstTrip? = it.firstTrip? ∨ other.lastTrip? = it.lastTrip?)
  cheapest : (∃ it ∈ its, it.isKept ∧ it.hasTransit) →
    ∃ best ∈ its, best ∈ done ∧ best.isKept ∧ best.hasTransit ∧
      ∀ it ∈ its, it.isKept → it.hasTransit → (best.key.compareCost it.key).isLE

/-- The kept itineraries in the order of costs, as a scan meets them. -/
def byCost (its : List Itinerary) : List Itinerary :=
  (sortByRanks SortKey.costRanks its).filter Itinerary.isKept

theorem mem_byCost {its : List Itinerary} {it : Itinerary} :
    it ∈ byCost its ↔ it ∈ its ∧ it.isKept := by
  rw [byCost, List.mem_filter, mem_sortByRanks]

theorem byCost_pairwise (its : List Itinerary) :
    (byCost its).Pairwise fun a b => (a.key.compareCost b.key).isLE :=
  (sortByRanks_pairwise SortKey.costRanks its).filter _

/-- The first transit in the order of costs is the cheapest. -/
theorem exists_cheapest {its : List Itinerary} (h : ∃ it ∈ its, it.isKept ∧ it.hasTransit) :
    ∃ best rest, (byCost its).filter Itinerary.hasTransit = best :: rest ∧
      ∀ it ∈ its, it.isKept → it.hasTransit → (best.key.compareCost it.key).isLE := by
  have hmem : ∀ it ∈ its, it.isKept → it.hasTransit →
      it ∈ (byCost its).filter Itinerary.hasTransit := fun it hit kept transit =>
    List.mem_filter.mpr ⟨mem_byCost.mpr ⟨hit, kept⟩, transit⟩
  obtain ⟨it, hit, kept, transit⟩ := h
  obtain ⟨best, rest, hbest⟩ :=
    List.exists_cons_of_ne_nil (List.ne_nil_of_mem (hmem it hit kept transit))
  have hsorted := (byCost_pairwise its).filter Itinerary.hasTransit
  rw [hbest] at hsorted hmem
  refine ⟨best, rest, hbest, fun it hit kept transit => ?_⟩
  rcases List.mem_cons.mp (hmem it hit kept transit) with rfl | hrest
  · change (compareRanks it.key.costRanks it.key.costRanks).isLE
    exact Std.ReflCmp.isLE_rfl
  · exact List.rel_of_pairwise_cons hsorted hrest

theorem verdict_of_rejectsIn {its : List Itinerary} {it : Itinerary}
    (h : RejectsIn [.sort .cost, .reject .sameEndTrip] its (.reject .sameEndTrip) it) :
    (it, true) ∈ (byCost its).zip (Flagger.endTripVerdicts [] [] (byCost its)) := by
  obtain ⟨front, back, before, after, hstages, hbefore, hafter, i, rejected, hi, hkept, hr, hnot⟩ :=
    h
  have hfront : front = [.sort .cost] := by
    obtain _ | ⟨s, _ | ⟨t, front⟩⟩ := front
    · cases hstages
    · cases hstages
      rfl
    · simp at hstages
  subst hfront
  cases hbefore
  cases hafter
  exact mem_zip_of_rejectBy hi hkept hr hnot

/-- A cost sort and the rule behind it. -/
theorem prunesEndTrips (its : List Itinerary) :
    PrunesEndTrips [.sort .cost, .reject .sameEndTrip] its
      (Flagger.sameEndTrip.run (sortByRanks SortKey.costRanks its)) := by
  have hkept := Flagger.filter_isKept_run_sameEndTrip (sortByRanks SortKey.costRanks its)
  have hdone : ∀ it ∈ Flagger.scanned [] [] (byCost its),
      it ∈ Flagger.sameEndTrip.run (sortByRanks SortKey.costRanks its) ∧ it.isKept :=
    fun it hit => List.mem_filter.mp (hkept ▸ hit)
  constructor
  case apart =>
    rw [← List.filter_filter, hkept]
    refine ((Flagger.scanned_apart [] [] (byCost its)).1.filter _).imp_of_mem ?_
    intro a b ha hb hapart
    obtain ⟨x, hx⟩ := Itinerary.exists_mem_endTrips?_iff.mpr (List.of_mem_filter ha)
    obtain ⟨y, hy⟩ := Itinerary.exists_mem_endTrips?_iff.mpr (List.of_mem_filter hb)
    have hends := Itinerary.ends_eq_iff hx hy
    rw [ne_eq, ne_eq, hends.1, hends.2]
    exact hapart x hx y hy
  case shares =>
    intro it hrejected
    obtain ⟨x, hx, hends⟩ := Flagger.shares_end_of_verdict [] [] (byCost_pairwise its)
      (verdict_of_rejectsIn hrejected)
    obtain hnil | hnil | ⟨other, hother, hle, y, hy, hshared⟩ := hends
    · cases hnil
    · cases hnil
    have htransit : other.hasTransit := Itinerary.exists_mem_endTrips?_iff.mp ⟨y, hy⟩
    refine ⟨Itinerary.exists_mem_endTrips?_iff.mp ⟨x, hx⟩, other, (hdone other hother).1,
      (hdone other hother).2, htransit, hle, ?_⟩
    have hends := Itinerary.ends_eq_iff hy hx
    rwa [hends.1, hends.2]
  case cheapest =>
    intro hsome
    obtain ⟨best, rest, hbest, hle⟩ := exists_cheapest hsome
    have hmem : best ∈ (byCost its).filter Itinerary.hasTransit := hbest ▸ List.mem_cons_self
    rw [List.mem_filter, mem_byCost] at hmem
    have hleft := hdone best (Flagger.mem_scanned_of_filter hbest)
    exact ⟨best, hmem.1.1, hleft.1, hleft.2, hmem.2, hle⟩

end Stage

namespace Plan
open Stage (PrunesEndTrips)
variable {p : Plan}

/-- The rule for first and last trips is on the list sorted by costs. -/
theorem stagesIn_chain_sameEndTrip (h : p.preferences.sameEndTrip) :
    stagesIn .sameEndTrip p.chain.stages =
      [(.sameEndTrip, .sort .cost), (.sameEndTrip, .reject .sameEndTrip)] := by
  rw [stagesIn_chain]
  simp [stages, ruleStages, windowStages, shownStages, stagesIn_decoratorStages, h,
    decoratorsIn_eq_nil (φ := .sameEndTrip) fun slot => by cases slot <;> decide]

/-- With the rule on, its two stages prune every list that comes to them. -/
theorem sameEndTrip_prunes (h : p.preferences.sameEndTrip) (its : List Itinerary) : ∃ done,
    Stage.runAll ((stagesIn .sameEndTrip p.chain.stages).map (·.2)) ⟨its, none⟩ =
      .ok ⟨done, none⟩ ∧
    PrunesEndTrips ((stagesIn .sameEndTrip p.chain.stages).map (·.2)) its done := by
  rw [stagesIn_chain_sameEndTrip h]
  exact ⟨_, rfl, Stage.prunesEndTrips its⟩

/-- A plan with the rule on and nothing else. -/
def apart : Plan := (bare .streetAndArrival).set (.sameEndTrip true)

theorem sameEndTrip_prunes_rides : apart.preferences.sameEndTrip ∧ ∃ done,
    Stage.runAll ((stagesIn .sameEndTrip apart.chain.stages).map (·.2))
      ⟨[slowRide, stroll, quickRide.reject "seen", fastRide], none⟩ = .ok ⟨done, none⟩ ∧
    PrunesEndTrips ((stagesIn .sameEndTrip apart.chain.stages).map (·.2))
      [slowRide, stroll, quickRide.reject "seen", fastRide] done :=
  ⟨rfl, sameEndTrip_prunes rfl _⟩

end Plan
end JourneyPages
