import JourneyPages.Proofs.Filter.Run
import JourneyPages.Proofs.Filter.Verdicts

/-!
The two sides of a cut. Each result order is a linear order on sort keys. So the rule for the front
of a cut and the one for what is behind it reject everything between them, and both of them only
what has the very key of the cut: what one of them leaves lies strictly on the other side.
-/
namespace JourneyPages

namespace SortOrder
variable {o : SortOrder} {a b : SortKey}

theorem compare_eq_lt_iff : o.compare a b = .lt ↔ (o.compare b a).isLE = false := by
  rw [o.compare_swap b a]
  cases o.compare b a <;> simp

/-- Only a key itself is on both sides of it. -/
theorem isLE_and_isLE_iff : (o.compare a b).isLE ∧ (o.compare b a).isLE ↔ a = b := by
  refine ⟨fun ⟨hab, hba⟩ => eq_of_isLE_compare hab hba, ?_⟩
  rintro rfl
  exact ⟨Std.ReflCmp.isLE_rfl, Std.ReflCmp.isLE_rfl⟩

end SortOrder

namespace Flagger
variable {o : SortOrder} {cut : SortKey} {its : List Itinerary} {it : Itinerary} {i : Nat}

theorem rejectsAt_head_iff (hi : its[i]? = some it) :
    (alreadyShown o .head cut).RejectsAt its i ↔ (o.compare it.key cut).isLE :=
  rejectsAt_iff rfl hi

theorem rejectsAt_tail_iff (hi : its[i]? = some it) :
    (alreadyShown o .tail cut).RejectsAt its i ↔ (o.compare cut it.key).isLE :=
  (rejectsAt_iff rfl hi).trans SortOrder.isGE_compare_iff

theorem filter_isKept_run_head (o : SortOrder) (cut : SortKey) (its : List Itinerary) :
    ((alreadyShown o .head cut).run its).filter Itinerary.isKept =
      (its.filter Itinerary.isKept).filter fun it => o.compare cut it.key = .lt := by
  rw [filter_isKept_run fun _ => rfl]
  refine List.filter_congr fun it _ => ?_
  rw [Bool.eq_iff_iff, Bool.not_eq_true', decide_eq_true_iff, SortOrder.compare_eq_lt_iff]
  exact Iff.rfl

theorem filter_isKept_run_tail (o : SortOrder) (cut : SortKey) (its : List Itinerary) :
    ((alreadyShown o .tail cut).run its).filter Itinerary.isKept =
      (its.filter Itinerary.isKept).filter fun it => o.compare it.key cut = .lt := by
  rw [filter_isKept_run fun _ => rfl]
  refine List.filter_congr fun it _ => ?_
  rw [Bool.eq_iff_iff, decide_eq_true_iff, SortOrder.compare_eq_lt_iff, Bool.not_eq_true',
    ← Bool.not_eq_true, ← Bool.not_eq_true, not_iff_not]
  exact SortOrder.isGE_compare_iff

end Flagger

/-- A result order is antisymmetric and transitive, and keys are level only with themselves. Every
itinerary is rejected for one end of a cut at least, for both if and only if it has the key of the
cut, and for the front what is left is what comes strictly after the cut. -/
theorem SortOrder.compare_linear (o : SortOrder) :
    (∀ a b, o.compare b a = (o.compare a b).swap) ∧
    (∀ a b c, (o.compare a b).isLE → (o.compare b c).isLE → (o.compare a c).isLE) ∧
    (∀ a b, o.compare a b = .eq ↔ a = b) ∧
    ∀ cut, (∀ its i it, its[i]? = some it →
        ((Flagger.alreadyShown o .head cut).RejectsAt its i ∨
          (Flagger.alreadyShown o .tail cut).RejectsAt its i) ∧
        ((Flagger.alreadyShown o .head cut).RejectsAt its i ∧
          (Flagger.alreadyShown o .tail cut).RejectsAt its i ↔ it.key = cut)) ∧
      ∀ its, ((Flagger.alreadyShown o .head cut).run its).filter Itinerary.isKept =
          (its.filter Itinerary.isKept).filter (fun it => o.compare cut it.key = .lt) ∧
        ((Flagger.alreadyShown o .tail cut).run its).filter Itinerary.isKept =
          (its.filter Itinerary.isKept).filter (fun it => o.compare it.key cut = .lt) := by
  refine ⟨o.compare_swap, fun a b c => Std.TransCmp.isLE_trans, fun a b => ?_, fun cut =>
    ⟨fun its i it hi => ?_, fun its => ⟨Flagger.filter_isKept_run_head o cut its,
      Flagger.filter_isKept_run_tail o cut its⟩⟩⟩
  · exact Std.LawfulEqCmp.compare_eq_iff_eq
  · rw [Flagger.rejectsAt_head_iff hi, Flagger.rejectsAt_tail_iff hi]
    refine ⟨?_, SortOrder.isLE_and_isLE_iff⟩
    by_cases hfront : (o.compare it.key cut).isLE
    · exact .inl hfront
    · exact .inr (SortOrder.isLE_compare_of_not (Bool.eq_false_iff.mpr hfront))

/-- At the key of the fast ride the slow one is behind the cut by arrival and the stroll in front
of it, since walks are in front of all rides. -/
theorem SortOrder.compare_linear_fastRide :
    (SortOrder.streetAndArrival.compare stroll.key fastRide.key).isLE ∧
    (SortOrder.streetAndArrival.compare stroll.key slowRide.key).isLE ∧
    ((Flagger.alreadyShown .streetAndArrival .head fastRide.key).RejectsAt
        [stroll, fastRide, slowRide] 1 ∧
      (Flagger.alreadyShown .streetAndArrival .tail fastRide.key).RejectsAt
        [stroll, fastRide, slowRide] 1) ∧
    ((Flagger.alreadyShown .streetAndArrival .head fastRide.key).run
      [stroll, fastRide, slowRide]).filter Itinerary.isKept = [slowRide] := by
  obtain ⟨-, htrans, -, hcut⟩ := SortOrder.streetAndArrival.compare_linear
  obtain ⟨hsides, hkept⟩ := hcut fastRide.key
  have hfirst : (SortOrder.streetAndArrival.compare stroll.key fastRide.key).isLE := by decide
  refine ⟨hfirst, htrans _ fastRide.key _ hfirst (by decide), ?_, ?_⟩
  · exact (hsides [stroll, fastRide, slowRide] 1 fastRide rfl).2.mpr rfl
  · rw [(hkept _).1]
    rfl

end JourneyPages
