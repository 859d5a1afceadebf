import JourneyPages.Proofs.Filter.Settled
import JourneyPages.Proofs.Filter.Survivors
import JourneyPages.Proofs.Number.Comparison
import JourneyPages.Proofs.Time.Instant

/-!
The rule against dear transit. It sets every transit itinerary against every cheaper one, with a
limit that may be relaxed by the time between the two. Main statement: what it rejects depends on
what others there are and not on where they stand, more of them never speak for an itinerary, and
without relaxation it is enough to look at the cheapest.
-/
namespace JourneyPages

open Number

namespace Cost

theorem add_zero (c : Cost) : c + zero = c := by
  have hsum : c + zero = saturate (c.value + 0) := rfl
  rw [hsum, Int.add_zero, saturate_of_value]

/-- Nothing for each of a number of seconds is nothing. -/
theorem ofFloat_mul_zero {n : Int} (h : n.natAbs < 2 ^ 53) :
    ofFloat (floatOfInt n * 0.0) = zero := by
  obtain ⟨hfinite, -⟩ := Binary64.value_floatOfInt h
  have hzero : (0.0 : Float).isFinite = true := by decide
  have hself := Binary64.hold_roundDouble_value hzero
  have hprod := (Binary64.value_mul hfinite hzero).2
  rw [Binary64.value_ofFloat_zero] at hself
  rw [Binary64.value_ofFloat_zero, mul_zero, hself] at hprod
  rw [ofFloat_eq, hprod]
  decide +kernel

end Cost

/-- Two instants are not so far apart that a double could not count the seconds. -/
theorem Instant.natAbs_wholeSeconds_since_lt (t u : Instant) :
    (t.since u).wholeSeconds.natAbs < 2 ^ 53 := by
  have ht := t.inRange
  have hu := u.inRange
  have hclocks := t.natAbs_nanosSince_sub_le u
  have hseconds : (t.since u).wholeSeconds.natAbs = (t.nanosSince u).natAbs / 1000000000 :=
    Int.natAbs_tdiv (t.nanosSince u) 1000000000
  unfold nanos at hclocks
  omega

namespace Flagger
variable {limit : CostLine} {relax : Float} {its xs ys : List Itinerary}
  {it : Itinerary} {i j : Nat}

/-- `m` is the lowest cost of a transit itinerary of the list. -/
def IsLeastTransitCost (its : List Itinerary) (m : Cost) : Prop :=
  (∃ it ∈ its, it.hasTransit ∧ it.cost = m) ∧ ∀ it ∈ its, it.hasTransit → m ≤ it.cost

theorem transitLimit_zero (limit : CostLine) (cheaper other : Itinerary) :
    transitLimit limit 0.0 cheaper other = limit.apply cheaper.cost := by
  have hseconds := other.start.natAbs_wholeSeconds_since_lt cheaper.start
  rw [transitLimit, Cost.ofFloat_mul_zero (by rwa [Int.natAbs_natCast]), Cost.add_zero]

theorem isDearTransit_iff : isDearTransit limit relax its it ↔ it.hasTransit ∧
    ∃ cheaper ∈ its, cheaper.hasTransit ∧ cheaper.cost < it.cost ∧
      transitLimit limit relax cheaper it < it.cost := by
  simp only [isDearTransit, Bool.and_eq_true, List.any_eq_true, decide_eq_true_eq, and_assoc]

/-- Without relaxation no limit is lower than that of the cheapest. -/
theorem isDearTransit_zero_iff : isDearTransit limit 0.0 its it ↔ it.hasTransit ∧
    ∃ m, IsLeastTransitCost its m ∧ m < it.cost ∧ limit.apply m < it.cost := by
  rw [isDearTransit_iff]
  simp only [transitLimit_zero]
  refine and_congr_right fun _ => ⟨?_, ?_⟩
  · rintro ⟨cheaper, hcheaper, htransit, hless, hlimit⟩
    obtain ⟨best, hbest, hkind, -, hle⟩ :=
      exists_least Itinerary.hasTransit ⟨cheaper, hcheaper, htransit⟩
    have hbelow := hle cheaper hcheaper htransit
    exact ⟨best.cost, ⟨⟨best, hbest, hkind, rfl⟩, hle⟩, lt_of_le_of_lt hbelow hless,
      lt_of_le_of_lt (limit.apply_mono hbelow) hlimit⟩
  · rintro ⟨m, ⟨⟨best, hbest, hkind, rfl⟩, -⟩, hless, hlimit⟩
    exact ⟨best, hbest, hkind, hless, hlimit⟩

/-- Where there are more itineraries, one that was rejected is rejected wherever it stands. -/
theorem RejectsAt.of_subset (hsub : xs ⊆ ys) (hi : xs[i]? = some it) (hj : ys[j]? = some it)
    (h : (transitCost limit relax).RejectsAt xs i) :
    (transitCost limit relax).RejectsAt ys j := by
  rw [rejectsAt_iff rfl hi] at h
  rw [rejectsAt_iff rfl hj]
  exact against_of_subset (fun factor => by simp) hsub h

/-- The rule without relaxation is a comparison with the lowest cost; with any relaxation it is the
same for every order of the list, and what it rejects it rejects beside more. -/
theorem transitCost_by_cheapest (limit : CostLine) :
    (∀ its i it, its[i]? = some it → ((transitCost limit 0.0).RejectsAt its i ↔
      it.hasTransit ∧ ∃ m, IsLeastTransitCost its m ∧ m < it.cost ∧ limit.apply m < it.cost)) ∧
    (∀ relax xs ys, xs.Perm ys → ∀ i j it, xs[i]? = some it → ys[j]? = some it →
      ((transitCost limit relax).RejectsAt xs i ↔ (transitCost limit relax).RejectsAt ys j)) ∧
    ∀ relax xs ys, xs ⊆ ys → ∀ i j it, xs[i]? = some it → ys[j]? = some it →
      (transitCost limit relax).RejectsAt xs i → (transitCost limit relax).RejectsAt ys j := by
  refine ⟨fun its i it hi => ?_, fun relax xs ys hperm i j it hi hj => ?_, ?_⟩
  · rw [rejectsAt_iff rfl hi]
    exact isDearTransit_zero_iff
  · exact ⟨.of_subset hperm.subset hi hj, .of_subset hperm.symm.subset hj hi⟩
  · exact fun relax xs ys hsub i j it hi hj => .of_subset hsub hi hj

/-- A slow ride that costs one more than another one. -/
def dearerRide : Itinerary := { slowRide with cost := .saturate 1001 }

/-- A cost that is equal to the lowest is kept and one above is not, wherever it stands. -/
theorem transitCost_by_cheapest_dearerRide :
    (transitCost .identity 0.0).RejectsAt [slowRide, slowRide, dearerRide] 2 ∧
    ¬ (transitCost .identity 0.0).RejectsAt [slowRide, slowRide, dearerRide] 1 ∧
    (transitCost .identity 0.0).RejectsAt [dearerRide, slowRide, slowRide] 0 ∧
    (transitCost .identity 0.0).RejectsAt [stroll, dearerRide, fastRide, slowRide, slowRide] 1 := by
  obtain ⟨hcheapest, hperm, hmore⟩ := transitCost_by_cheapest .identity
  have hleast : IsLeastTransitCost [slowRide, slowRide, dearerRide] (.saturate 1000) :=
    ⟨⟨slowRide, by simp, by decide, rfl⟩, by simp [Cost.le_iff]; decide⟩
  have hdear := (hcheapest [slowRide, slowRide, dearerRide] 2 dearerRide rfl).mpr
    ⟨by decide, _, hleast, by decide, by decide +kernel⟩
  have hturned : [slowRide, slowRide, dearerRide].Perm [dearerRide, slowRide, slowRide] := by
    change ([slowRide, slowRide] ++ [dearerRide]).Perm ([dearerRide] ++ [slowRide, slowRide])
    exact List.perm_append_comm
  refine ⟨hdear, fun hequal => ?_, ?_, ?_⟩
  · obtain ⟨-, m, ⟨⟨it, hit, -, rfl⟩, -⟩, hless, -⟩ := (hcheapest _ 1 slowRide rfl).mp hequal
    simp only [List.mem_cons, List.not_mem_nil, or_false, or_self_left] at hit
    rcases hit with rfl | rfl
    · exact absurd hless (by decide)
    · exact absurd hless (by decide)
  · exact (hperm 0.0 _ _ hturned 2 0 dearerRide rfl rfl).mp hdear
  · exact hmore 0.0 _ _ (by simp) 2 1 dearerRide rfl rfl hdear

end Flagger
end JourneyPages
