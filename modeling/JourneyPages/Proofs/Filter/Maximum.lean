import JourneyPages.Proofs.Filter.Chain

/-!
The maximum of a run. Whatever the maximum is and whichever end it crops, the same list comes to
the cap in the order of results; the run ends with as many entries of it, from the end that is not
cropped.
-/
namespace JourneyPages

/-- How many itineraries were removed from one end. -/
def CapReport.removedFrom (r : CapReport) : ListEnd → Nat
  | .head => r.removedFromHead
  | .tail => r.removedFromTail

/-- The result is a list in the order of results up to a maximum. A cut is reported if something is
removed and something is left: at the last entry that is left towards the cropped end. -/
structure ChainResult.IsCrop (result : ChainResult) (max : Nat) (e : ListEnd)
    (all : List Itinerary) : Prop where
  itineraries : result.itineraries = match e with
    | .tail => all.take max
    | .head => all.drop (all.length - max)
  isSome_cap : result.cap.isSome ↔ max < all.length ∧ 1 ≤ max
  cut : ∀ report ∈ result.cap, (match e with
    | .tail => result.itineraries.getLast?
    | .head => result.itineraries.head?).map Itinerary.key = some report.cut
  removed : ∀ report ∈ result.cap, report.croppedEnd = e ∧
    report.removedFrom e = all.length - max ∧ report.removedFrom e.opposite = 0

namespace Cap
variable {max : Nat} {e : ListEnd} {sorted : List Itinerary} {report : CapReport}

theorem isSome_reportOf (max : Nat) (e : ListEnd) (sorted : List Itinerary) :
    (reportOf max e sorted).isSome ↔ max < sorted.length ∧ 1 ≤ max := by
  constructor
  · intro h
    obtain ⟨report, hreport⟩ := Option.isSome_iff_exists.mp h
    obtain ⟨it, hit, -⟩ := boundary_of_reportOf hreport
    have hlt := max_lt_of_reportOf hreport
    refine ⟨hlt, Nat.one_le_iff_ne_zero.mpr ?_⟩
    rintro rfl
    cases e <;> simp [boundary?, crop] at hit
  · rintro ⟨hlt, hmax⟩
    by_contra hnone
    have hcrop := crop_of_reportOf_eq_none hmax (Option.not_isSome_iff_eq_none.mp hnone)
    have hdropped := length_crop_fst max e sorted
    rw [hcrop] at hdropped
    simp only [List.length_nil] at hdropped
    omega

theorem removedFrom_of_reportOf (h : reportOf max e sorted = some report) :
    report.croppedEnd = e ∧ report.removedFrom e = sorted.length - max ∧
      report.removedFrom e.opposite = 0 := by
  rw [reportOf, if_neg (max_lt_of_reportOf h).not_ge] at h
  obtain ⟨it, -, rfl⟩ := Option.map_eq_some_iff.mp h
  cases e <;> simp [Cap.report, CapReport.removedFrom, ListEnd.opposite]

/-- What a cap leaves of a list in sort order, with its report. -/
theorem isCrop (max : Nat) (e : ListEnd) (sorted : List Itinerary) :
    (⟨(crop max e sorted).2, reportOf max e sorted⟩ : ChainResult).IsCrop max e sorted where
  itineraries := by cases e <;> rfl
  isSome_cap := isSome_reportOf max e sorted
  cut := by
    intro report hreport
    obtain ⟨it, hit, hcut⟩ := boundary_of_reportOf hreport
    have hboundary : (boundary? e (crop max e sorted).2).map Itinerary.key = some report.cut := by
      rw [hit, Option.map_some, hcut]
    cases e <;> exact hboundary
  removed := fun _ hreport => removedFrom_of_reportOf hreport

end Cap

namespace Plan
variable {p : Plan}

theorem front_set_max (p : Plan) (max : Nat) (e : ListEnd) :
    (p.set (.max max e)).front = p.front := rfl

theorem order_set_max (p : Plan) (max : Nat) (e : ListEnd) :
    (p.set (.max max e)).order = p.order := rfl

/-- No rule looks at the maximum, or at the end that it crops. -/
theorem offered_set_max (p : Plan) (max : Nat) (e : ListEnd) (its : List Itinerary) :
    (p.set (.max max e)).offered its = p.offered its := by
  rw [offered, offered, front_set_max, order_set_max]

theorem run_set_max (h : p.decorators = []) (debug : p.preferences.debug = .off) (max : Nat)
    (e : ListEnd) (its : List Itinerary) : (p.set (.max max e)).chain.run its =
      .ok ⟨(Cap.crop max e (p.offered its)).2, Cap.reportOf max e (p.offered its)⟩ := by
  have hnone : (p.set (.max max e)).decorators = [] := h
  have hoff : (p.set (.max max e)).preferences.debug = .off := debug
  have hmax : (p.set (.max max e)).max = max := rfl
  have hend : (p.set (.max max e)).croppedEnd = e := rfl
  rw [run_chain hnone, sweep_gathered hnone hoff its, offered_set_max, hmax, hend]

/-- One list in the order of results stands behind the runs under every maximum. -/
theorem exists_isCrop (h : p.decorators = []) (debug : p.preferences.debug = .off)
    (its : List Itinerary) : ∃ all : List Itinerary,
      (all.Pairwise fun a b => (p.order.compare a.key b.key).isLE) ∧
      ∀ max e, ∃ result,
        (p.set (.max max e)).chain.run its = .ok result ∧ result.IsCrop max e all :=
  ⟨p.offered its, offered_pairwise p its, fun max e =>
    ⟨_, run_set_max h debug max e its, Cap.isCrop max e (p.offered its)⟩⟩

/-- Two rides tie for the first place in the order of results. -/
theorem exists_isCrop_tie :
    (bare .streetAndArrival).decorators = [] ∧ (bare .streetAndArrival).preferences.debug = .off ∧
    ∃ all : List Itinerary,
      (all.Pairwise fun a b => ((bare .streetAndArrival).order.compare a.key b.key).isLE) ∧
      ∀ max e, ∃ result, ((bare .streetAndArrival).set (.max max e)).chain.run
        [slowRide, fastRide, { fastRide with notices := [⟨"seen", "twice"⟩] }] = .ok result ∧
          result.IsCrop max e all :=
  ⟨rfl, rfl, exists_isCrop rfl rfl _⟩

end Plan
end JourneyPages
