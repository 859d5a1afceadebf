import JourneyPages.Proofs.Filter.Chain
import JourneyPages.Proofs.Filter.Verdicts

/-!
Runs on one list in two orders. Most stages make the same of both up to order, and a sort brings
them together if cost and number of transfers tell the itineraries apart. The rules that go down the
list all have a sort in front of them.
-/
namespace JourneyPages

open Itinerary (Retagged)

/-- Cost and number of transfers tell the itineraries apart. -/
def ToldApart (its : List Itinerary) : Prop := (its.map fun it => (it.cost, it.transfers)).Nodup

namespace ToldApart
variable {xs ys : List Itinerary}

theorem of_perm (h : xs.Perm ys) (hxs : ToldApart xs) : ToldApart ys :=
  (h.map _).nodup_iff.mp hxs

theorem of_sublist (h : xs.Sublist ys) (hys : ToldApart ys) : ToldApart xs :=
  List.Nodup.sublist (h.map _) hys

theorem filter (q : Itinerary → Bool) (hxs : ToldApart xs) : ToldApart (xs.filter q) :=
  hxs.of_sublist List.filter_sublist

/-- Marks do not matter. -/
theorem of_retagged (h : Corresponds Retagged xs ys) (hxs : ToldApart xs) : ToldApart ys := by
  have hperm := h.map_perm (f := fun it => (it.cost, it.transfers)) fun {a b} hab => by
    show (b.untagged.cost, b.untagged.transfers) = (a.untagged.cost, a.untagged.transfers)
    rw [hab.untagged]
  exact hperm.nodup_iff.mpr hxs

theorem eq_of_ranks_eq (hxs : ToldApart xs) (r : Ranking) :
    ∀ a ∈ xs, ∀ b ∈ xs, r.ranks a.key = r.ranks b.key → a = b := by
  intro a ha b hb hranks
  apply List.inj_on_of_nodup_map hxs ha hb
  cases r with
  | cost =>
    simp only [Ranking.ranks, SortKey.costRanks, List.cons.injEq] at hranks
    exact Prod.ext (Cost.ext hranks.1) (Int.ofNat.inj hranks.2.1)
  | results o =>
    have hkey : a.key = b.key := o.ranks_injective hranks
    exact Prod.ext (congrArg SortKey.cost hkey) (congrArg SortKey.transfers hkey)

/-- A sort brings two orders together. -/
theorem sortByRanks_eq (hxs : ToldApart xs) (r : Ranking) (h : xs.Perm ys) :
    sortByRanks r.ranks xs = sortByRanks r.ranks ys :=
  sortByRanks_eq_of_perm r.ranks h (hxs.eq_of_ranks_eq r)

theorem nodup_map_key (hxs : ToldApart xs) : (xs.map Itinerary.key).Nodup := by
  apply List.Nodup.of_map fun k : SortKey => (k.cost, k.transfers)
  rw [List.map_map]
  exact hxs

end ToldApart

/-- A rule that does not go by the order of the list rejects the same. -/
theorem Flagger.Impartial.run_perm {f : Flagger} (hf : f.Impartial) {xs ys : List Itinerary}
    (h : xs.Perm ys) : (f.run xs).Perm (f.run ys) := by
  obtain ⟨against, hverdicts, hsame⟩ := hf
  rw [run, run, hverdicts, hverdicts, rejectBy_map, rejectBy_map,
    hsame _ _ (h.filter Itinerary.isKept)]
  exact h.map _

/-- A cap takes off the same. -/
theorem Cap.run_fst_perm (max : Nat) (e : ListEnd) (o : SortOrder) {xs ys : List Itinerary}
    (h : xs.Perm ys) (hxs : ToldApart xs) : (run max e o xs).1.Perm (run max e o ys).1 := by
  have hkept : sortByRanks o.ranks (xs.filter Itinerary.isKept) =
      sortByRanks o.ranks (ys.filter Itinerary.isKept) :=
    (hxs.filter _).sortByRanks_eq (.results o) (h.filter _)
  rw [run_fst_of_nodup max e o hxs.nodup_map_key,
    run_fst_of_nodup max e o (hxs.of_perm h).nodup_map_key, hkept]
  exact h.map _

namespace Stage

/-- Quiet stages that make the same itineraries of a list in every order. -/
structure IgnoresOrder (stages : List Stage) : Prop where
  quiet : ∀ s ∈ stages, s.Quiet
  perm : ∀ xs ys, xs.Perm ys → ToldApart xs → (outcomeAll stages xs).Perm (outcomeAll stages ys)

theorem toldApart_outcomeAll {stages : List Stage} (h : ∀ s ∈ stages, s.Quiet)
    {its : List Itinerary} (hits : ToldApart its) : ToldApart (outcomeAll stages its) :=
  hits.of_retagged (corresponds_outcomeAll (fun s hs => (h s hs).corresponds) its)

namespace IgnoresOrder
variable {stages front back : List Stage}

theorem nil : IgnoresOrder [] := ⟨by simp, fun _ _ h _ => h⟩

theorem append (hfront : IgnoresOrder front) (hback : IgnoresOrder back) :
    IgnoresOrder (front ++ back) where
  quiet := List.forall_mem_append.mpr ⟨hfront.quiet, hback.quiet⟩
  perm := by
    intro xs ys h hxs
    rw [outcomeAll_append, outcomeAll_append]
    exact hback.perm _ _ (hfront.perm xs ys h hxs) (toldApart_outcomeAll hfront.quiet hxs)

theorem ite (on : Bool) (h : IgnoresOrder stages) : IgnoresOrder (if on then stages else []) := by
  cases on
  · exact nil
  · exact h

/-- Behind a sort the two lists are one. -/
theorem sort_cons (r : Ranking) (h : ∀ s ∈ stages, s.Quiet) : IgnoresOrder (sort r :: stages) where
  quiet := List.forall_mem_cons.mpr ⟨Quiet.sort r, h⟩
  perm := by
    intro xs ys hperm hxs
    rw [outcomeAll, outcomeAll, outcome, outcome, hxs.sortByRanks_eq r hperm]

theorem reject {f : Flagger} (hf : f.Impartial) : IgnoresOrder [reject f] where
  quiet := by simp [Quiet.reject]
  perm := fun _ _ h _ => hf.run_perm h

theorem group (name : String) (grouping : Grouping) (h : IgnoresOrder stages) :
    IgnoresOrder [group name grouping stages] where
  quiet := List.forall_mem_singleton.mpr (Quiet.group h.quiet)
  perm := by
    intro xs ys hperm hxs
    have hkept := hperm.filter Itinerary.isKept
    simp only [outcomeAll, outcome]
    refine (flatMap_classes_perm hkept fun k => ?_).append (hperm.filter _)
    exact h.perm _ _ (hkept.filter _) ((hxs.filter _).filter _)

end IgnoresOrder
end Stage

namespace Plan
open Stage (IgnoresOrder Quiet)

theorem ignoresOrder_similarityStage (s : SimilarityLimit) :
    IgnoresOrder [similarityStage s] := by
  refine .group _ _ ((IgnoresOrder.append (.ite _ ?_) (.ite _ ?_)).append ?_)
  · exact .group _ _ (.sort_cons _ (by simp [Quiet.reject]))
  · exact .reject (Flagger.impartial rfl)
  · exact .sort_cons _ (by simp [Quiet.reject, Quiet.reinstate])

theorem ignoresOrder_sameRoutesAndStopsStage (o : SortOrder) :
    IgnoresOrder [sameRoutesAndStopsStage o] :=
  .group _ _ (.sort_cons _ (by simp [Quiet.reject]))

variable {p : Plan}

theorem ignoresOrder_front (h : p.decorators = []) : IgnoresOrder p.front :=
  front_induction .nil .append (fun _ hf _ => .reject (Flagger.impartial hf)) h
    (fun s _ => ignoresOrder_similarityStage s) (ignoresOrder_sameRoutesAndStopsStage p.order)
    (.sort_cons .cost (by simp [Quiet.reject]))

/-- A run makes the same of a list in every order: the list it ends with, with its order, tags and
notices, and the report of the cap. -/
theorem run_eq_of_perm (h : p.decorators = []) {xs ys : List Itinerary} (hperm : xs.Perm ys)
    (hapart : ToldApart xs) :
    ∃ result, p.chain.run xs = .ok result ∧ p.chain.run ys = .ok result := by
  have hfront := ignoresOrder_front h
  have hxs := Stage.runAll_eq_of_quiet hfront.quiet ⟨xs, none⟩
  have hys := Stage.runAll_eq_of_quiet hfront.quiet ⟨ys, none⟩
  have hbrought := hfront.perm xs ys hperm hapart
  have htold := Stage.toldApart_outcomeAll hfront.quiet hapart
  dsimp only at hxs hys
  generalize Stage.outcomeAll p.front xs = broughtX at *
  generalize Stage.outcomeAll p.front ys = broughtY at *
  have hoffered : p.offered xs = p.offered ys := by
    rw [offered, offered, hxs, hys]
    exact (htold.filter _).sortByRanks_eq (.results p.order) (hbrought.filter _)
  have hcapped : ToldApart (Cap.run p.max p.croppedEnd p.order broughtX).1 :=
    htold.of_retagged (.of_forall₂ ((Cap.forall₂_run _ _ _ _).imp fun _ _ h => h.retagged))
  have hgathered : p.gathered xs = p.gathered ys := by
    rw [gathered_of_front h hxs, gathered_of_front h hys]
    exact hcapped.sortByRanks_eq (.results p.order) (Cap.run_fst_perm _ _ _ hbrought htold)
  refine ⟨_, run_chain h xs, ?_⟩
  rw [run_chain h ys, hoffered, hgathered]

/-- Three rides of different costs on one trip, in two orders. -/
theorem run_eq_of_perm_rides :
    let dear : Itinerary := { slowRide with cost := .saturate 1200 }
    let cheap : Itinerary := { quickRide with cost := .saturate 900 }
    let plan := (ofPreferences .standard .streetAndArrival).set (.debug .limitToCount)
    plan.decorators = [] ∧ [dear, fastRide, cheap].Perm [cheap, dear, fastRide] ∧
    ToldApart [dear, fastRide, cheap] ∧
    ∃ result, plan.chain.run [dear, fastRide, cheap] = .ok result ∧
      plan.chain.run [cheap, dear, fastRide] = .ok result := by
  intro dear cheap plan
  have hperm : ([dear, fastRide] ++ [cheap]).Perm ([cheap] ++ [dear, fastRide]) :=
    List.perm_append_comm
  have hapart : ToldApart [dear, fastRide, cheap] := by
    unfold ToldApart
    decide
  exact ⟨rfl, hperm, hapart, run_eq_of_perm rfl hperm hapart⟩

end Plan
end JourneyPages
