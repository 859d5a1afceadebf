import JourneyPages.Proofs.Filter.EndTrips
import JourneyPages.Proofs.Filter.Marking
import JourneyPages.Proofs.Filter.Spared
import JourneyPages.Proofs.Filter.Survivors
import JourneyPages.Proofs.Trip.CostLine

/-!
Runs on what runs left. Rules compare an itinerary with others, and taking some of the others away
never turns a rule against it: whatever part of its survivors a rule is given, it leaves all of
them. So do groups, whose caps and reinstatements leave no more than they are content with.
-/
namespace JourneyPages

open Itinerary (Marked Retagged)

theorem forall_isKept_of_subperm {xs ys : List Itinerary}
    (h : ys.Subperm (xs.filter Itinerary.isKept)) : ∀ it ∈ ys, it.isKept :=
  fun _ hit => List.of_mem_filter (h.subset hit)

/-! Rules -/

namespace Flagger
variable {xs ys : List Itinerary}

theorem leastCost?_le_of_subset {kind : Itinerary → Bool} (h : ys ⊆ xs) {c : Cost}
    (hc : leastCost? kind ys = some c) : ∃ d, leastCost? kind xs = some d ∧ d ≤ c := by
  obtain ⟨⟨it, hit, hkind, rfl⟩, -⟩ := leastCost?_eq_some_iff.mp hc
  obtain ⟨least, -, -, hleast, hle⟩ := exists_least kind ⟨it, h hit, hkind⟩
  exact ⟨least.cost, hleast, hle it (h hit) hkind⟩

/-- A limit that grows with the least cost of a kind is lower where there are more of that kind. -/
theorem isAbove_of_subset {kind : Itinerary → Bool} {limit : Cost → Cost}
    (hlimit : ∀ {c d}, c ≤ d → limit c ≤ limit d) (h : ys ⊆ xs) {c : Cost}
    (hc : isAbove ((leastCost? kind ys).map limit) c) :
    isAbove ((leastCost? kind xs).map limit) c := by
  cases hys : leastCost? kind ys with
  | none => simp [hys, isAbove] at hc
  | some b =>
    obtain ⟨d, hd, hle⟩ := leastCost?_le_of_subset h hys
    simp only [hys, hd, isAbove, Option.map_some, Option.any_some, decide_eq_true_eq] at hc ⊢
    exact lt_of_le_of_lt (hlimit hle) hc

/-- More itineraries never speak for one, unless costs are counted outside the trips that all of
them share. -/
theorem against_of_subset {f : Flagger} (hf : ∀ factor, f ≠ .dearOtherLegs factor) (h : ys ⊆ xs)
    {it : Itinerary} (hit : f.against ys it) : f.against xs it := by
  cases f with
  | transitCost limit relax =>
    simp only [against, isDearTransit, Bool.and_eq_true, List.any_eq_true] at hit ⊢
    obtain ⟨htransit, cheaper, hcheaper, hdear⟩ := hit
    exact ⟨htransit, cheaper, h hcheaper, hdear⟩
  | streetCost limit =>
    simp only [against, Bool.and_eq_true] at hit ⊢
    exact ⟨hit.1, isAbove_of_subset limit.apply_mono h hit.2⟩
  | dearerThanStreet limit =>
    simp only [against, Bool.and_eq_true] at hit ⊢
    exact ⟨hit.1, isAbove_of_subset limit.apply_mono h hit.2⟩
  | dearerThanWalk =>
    simp only [against, Bool.and_eq_true] at hit ⊢
    have hself : ∀ {c d : Cost}, c ≤ d → id c ≤ id d := id
    refine ⟨hit.1, ?_⟩
    simpa using isAbove_of_subset hself h (by simpa using hit.2)
  | dearOtherLegs factor => exact absurd rfl (hf factor)
  | _ => exact hit

/-- A count leaves no more than it says. -/
theorem length_beyondCount (tag : String) (count : Nat) (its : List Itinerary) :
    (((beyondCount tag count).run its).filter Itinerary.isKept).length ≤ count := by
  rw [filter_isKept_run_beyondCount]
  exact List.length_take_le count _

end Flagger

theorem reinstateOne_of_forall_isKept (tags : List String) {its : List Itinerary}
    (h : ∀ it ∈ its, it.isKept) : reinstateOne tags its = its := by
  cases its with
  | nil => simp [reinstateOne]
  | cons it rest => rw [reinstateOne, if_pos (by simp [h])]

/-- Entries with different numbers, and the one with a given number. -/
theorem filter_snd_eq {α : Type} {xs : List (α × Nat)} (h : (xs.map Prod.snd).Nodup) {x : α × Nat}
    (hx : x ∈ xs) : xs.filter (fun y => y.2 = x.2) = [x] := by
  induction xs with
  | nil => cases hx
  | cons y ys ih =>
    obtain ⟨hy, hys⟩ := List.nodup_cons.mp h
    rcases List.mem_cons.mp hx with rfl | hx
    · have hrest : ys.filter (fun z => z.2 = x.2) = [] := by
        refine List.filter_eq_nil_iff.mpr fun z hz hsame => hy ?_
        rw [← of_decide_eq_true hsame]
        exact List.mem_map_of_mem hz
      rw [List.filter_cons_of_pos (by simp), hrest]
    · have hne : y.2 ≠ x.2 := fun hsame => hy (hsame ▸ List.mem_map_of_mem hx)
      rw [List.filter_cons_of_neg (by simpa using hne), ih hys hx]

/-- Transfers first, and then the cost. -/
def SortKey.transferRanks (k : SortKey) : List Int := [k.transfers, k.cost.value]

/-- Where nothing is kept, the one with the fewest transfers is reinstated, out of those with no
other tags. -/
theorem filter_isKept_reinstateOne (tags : List String) {its : List Itinerary}
    (h : its.any Itinerary.isKept = false) :
    (reinstateOne tags its).filter Itinerary.isKept = ((sortByRanks SortKey.transferRanks
      (its.filter fun it => it.tags.all (· ∈ tags))).take 1).map Itinerary.untagged := by
  have hnone : ∀ it ∈ its, it.isKept = false := by simpa using h
  rw [reinstateOne, if_neg (by simp [h])]
  dsimp only
  generalize hsorted : List.mergeSort _ _ = sorted
  have hfirst : sorted.map Prod.fst = sortByRanks SortKey.transferRanks
      (its.filter fun it => it.tags.all (· ∈ tags)) := by
    rw [← hsorted, ← Cap.map_fst_filter_zipIdx]
    exact List.map_mergeSort fun _ _ _ _ => rfl
  rw [← hfirst]
  cases sorted with
  | nil =>
    have hnil : its.filter Itinerary.isKept = [] := by
      simpa [List.filter_eq_nil_iff] using hnone
    simp [hnil]
  | cons x rest =>
    have hx : x ∈ its.zipIdx ∧ x.1.tags.all (· ∈ tags) := by
      have hmem : x ∈ its.zipIdx.filter (fun y => y.1.tags.all (· ∈ tags)) := by
        rw [← List.mem_mergeSort, hsorted]
        exact List.mem_cons_self
      exact List.mem_filter.mp hmem
    have hempty : x.1.reinstate tags = x.1.untagged := by
      have hfilter : x.1.tags.filter (· ∉ tags) = [] := by
        refine List.filter_eq_nil_iff.mpr ?_
        simpa using hx.2
      rw [Itinerary.reinstate, hfilter]
      rfl
    -- Only the one at the place of the first is kept.
    have hplaces : (its.zipIdx.map Prod.snd).Nodup := by
      rw [List.zipIdx_map_snd]
      exact List.nodup_range'
    have honly := filter_snd_eq hplaces hx.1
    have hkept : ∀ y ∈ its.zipIdx,
        (if y.2 = x.2 then y.1.reinstate tags else y.1).isKept = decide (y.2 = x.2) := by
      intro y hy
      by_cases hsame : y.2 = x.2
      · have hyx : y ∈ its.zipIdx.filter fun y => y.2 = x.2 :=
          List.mem_filter.mpr ⟨hy, by simpa using hsame⟩
        rw [honly, List.mem_singleton] at hyx
        simp [hyx, hempty, Itinerary.isKept, Itinerary.untagged]
      · rw [if_neg hsame, hnone y.1 (List.fst_mem_of_mem_zipIdx hy), decide_eq_false hsame]
    calc (its.zipIdx.map fun y =>
          if y.2 = x.2 then y.1.reinstate tags else y.1).filter Itinerary.isKept
        = (its.zipIdx.filter fun y => y.2 = x.2).map fun y =>
            if y.2 = x.2 then y.1.reinstate tags else y.1 := by
          rw [List.filter_map]
          exact congrArg _ (List.filter_congr hkept)
      _ = _ := by simp [honly, hempty]

/-- Where nothing is kept, one is reinstated at most. -/
theorem length_filter_isKept_reinstateOne (tags : List String) {its : List Itinerary}
    (h : its.any Itinerary.isKept = false) :
    ((reinstateOne tags its).filter Itinerary.isKept).length ≤ 1 := by
  rw [filter_isKept_reinstateOne tags h, List.length_map]
  exact List.length_take_le 1 _

namespace Stage

/-- Quiet stages that only take from what is kept, and that leave any part of what they leave. -/
structure Settles (stages : List Stage) : Prop where
  quiet : ∀ s ∈ stages, s.Quiet
  shrinks : ∀ its, ((outcomeAll stages its).filter Itinerary.isKept).Subperm
    (its.filter Itinerary.isKept)
  settled : ∀ xs ys, ys.Subperm ((outcomeAll stages xs).filter Itinerary.isKept) →
    (outcomeAll stages ys).Perm ys

namespace Settles
variable {stages front back : List Stage}

theorem nil : Settles [] := ⟨by simp, fun _ => .refl _, fun _ _ _ => .refl _⟩

theorem append (hfront : Settles front) (hback : Settles back) : Settles (front ++ back) where
  quiet := List.forall_mem_append.mpr ⟨hfront.quiet, hback.quiet⟩
  shrinks := by
    intro its
    rw [outcomeAll_append]
    exact (hback.shrinks _).trans (hfront.shrinks its)
  settled := by
    intro xs ys h
    rw [outcomeAll_append] at h ⊢
    have hys := hfront.settled xs ys (h.trans (hback.shrinks _))
    exact (hback.settled _ _ (hys.subperm.trans h)).trans hys

theorem sort (r : Ranking) : Settles [sort r] where
  quiet := by simp [Quiet.sort]
  shrinks := fun its => ((sortByRanks_perm r.ranks its).filter _).subperm
  settled := fun _ ys _ => sortByRanks_perm r.ranks ys

/-- A rule settles if it is against none of any part of what it leaves. -/
theorem reject {f : Flagger} (h : ∀ xs ys, ys.Subperm ((f.run xs).filter Itinerary.isKept) →
    ∀ v ∈ f.verdicts ys, v = false) : Settles [reject f] where
  quiet := by simp [Quiet.reject]
  shrinks := fun its => (corresponds_reject f its).filter_isKept_subperm
  settled := by
    intro xs ys hsub
    have hsame := Flagger.run_eq_self (forall_isKept_of_subperm hsub) (h xs ys hsub)
    exact .of_eq hsame

theorem reject_against {f : Flagger} (horder : f.goesByOrder = false)
    (hf : ∀ factor, f ≠ .dearOtherLegs factor) : Settles [.reject f] := by
  refine reject fun xs ys hsub => ?_
  rw [Flagger.verdicts_eq_map horder, List.forall_mem_map]
  intro it hit
  rw [Flagger.filter_isKept_run_eq_survivors horder] at hsub
  have hleft := List.of_mem_filter (hsub.subset hit)
  rw [Bool.not_eq_true'] at hleft
  rw [← Bool.not_eq_true] at hleft ⊢
  refine fun hagainst => hleft (Flagger.against_of_subset hf ?_ hagainst)
  exact fun other ho => List.mem_of_mem_filter (hsub.subset ho)

theorem beyondCount (tag : String) (count : Nat) : Settles [.reject (.beyondCount tag count)] := by
  refine reject fun xs ys hsub => ?_
  have hlength : ys.length ≤ count := hsub.length_le.trans (Flagger.length_beyondCount tag count xs)
  intro v hv
  simp only [Flagger.verdicts, List.mem_map, Prod.exists] at hv
  obtain ⟨it, i, hi, rfl⟩ := hv
  have hlt := (List.mem_zipIdx' hi).1
  simp only [decide_eq_false_iff_not]
  omega

theorem sameEndTrip : Settles [.reject .sameEndTrip] := by
  refine reject fun xs ys hsub => ?_
  rw [Flagger.filter_isKept_run_sameEndTrip] at hsub
  obtain ⟨part, hperm, hpart⟩ := hsub
  have hapart := (Flagger.scanned_apart [] [] (xs.filter Itinerary.isKept)).1.sublist hpart
  exact Flagger.endTripVerdicts_of_apart (hperm.pairwise hapart fun h => h.symm) (by simp)

/-- Quiet stages keep the keys of a grouping. -/
theorem exists_key?_of_mem_outcomeAll (grouping : Grouping) {nested : List Stage}
    (h : ∀ s ∈ nested, s.Quiet) {its : List Itinerary} {it : Itinerary}
    (hit : it ∈ (outcomeAll nested its).filter Itinerary.isKept) :
    ∃ before ∈ its, grouping.key? it = grouping.key? before := by
  obtain ⟨before, hbefore, hsame⟩ := List.mem_map.mp
    ((map_untagged_outcomeAll_perm h its).mem_iff.mp
      (List.mem_map_of_mem (List.mem_of_mem_filter hit)))
  exact ⟨before, hbefore, (congrArg grouping.key? hsame).symm⟩

/-- A group settles if its stages leave any part of what they leave. -/
theorem group (name : String) (grouping : Grouping) (quiet : ∀ s ∈ stages, s.Quiet)
    (h : ∀ xs ys, ys.Subperm ((outcomeAll stages xs).filter Itinerary.isKept) →
      (outcomeAll stages ys).Perm ys) : Settles [group name grouping stages] where
  quiet := by simpa using Quiet.group quiet
  shrinks := fun its => by
    have hcorresponds := corresponds_group
      (corresponds_outcomeAll fun s hs => (quiet s hs).corresponds) name grouping its
    exact hcorresponds.filter_isKept_subperm
  settled := by
    intro xs ys hsub
    have hkept := forall_isKept_of_subperm hsub
    have hrejected : ys.filter (!·.isKept) = [] := by
      simpa [List.filter_eq_nil_iff] using hkept
    simp only [outcomeAll, outcome, List.filter_eq_self.mpr hkept, hrejected, List.append_nil]
    -- A class of the part is a part of what the stages leave of one class.
    let left (c : List Itinerary) : List Itinerary :=
      (outcomeAll stages c).filter Itinerary.isKept
    have hleft : ∀ c, ∀ y ∈ left c, ∃ x ∈ c, grouping.key? y = grouping.key? x :=
      fun c y hy => exists_key?_of_mem_outcomeAll grouping quiet hy
    have hpart : ys.Subperm
        ((classes grouping.key? (xs.filter Itinerary.isKept)).flatMap left) := by
      rwa [← filter_isKept_outcome_group name]
    have hclasses : ∀ c ∈ classes grouping.key? ys, (outcomeAll stages c).Perm c := by
      intro c hc
      rcases eq_of_mem_classes hc with ⟨y, hy, hnone, rfl⟩ | ⟨y, hy, k, hk, rfl⟩
      · obtain ⟨d, hd, hyd⟩ := List.mem_flatMap.mp (hpart.subset hy)
        exact h d [y] (List.singleton_subperm_iff.mpr hyd)
      · refine h ((xs.filter Itinerary.isKept).filter fun x => grouping.key? x = some k) _ ?_
        have hclass := hpart.filter fun x => decide (grouping.key? x = some k)
        rwa [filter_flatMap_classes hleft] at hclass
    refine (List.Perm.flatMap_left _ hclasses).trans ?_
    rw [List.flatMap_id']
    exact flatten_classes_perm grouping.key? ys

/-- Reinstating one after stages that settle: of a part of what they leave they leave all, and the
one that is reinstated where they leave none is left by itself. -/
theorem settled_reinstate {tags : List String} (h : Settles stages)
    (hone : ∀ it : Itinerary, it.isKept → outcomeAll (stages ++ [.reinstate tags]) [it] = [it])
    (xs ys : List Itinerary) (hsub : ys.Subperm
      ((outcomeAll (stages ++ [.reinstate tags]) xs).filter Itinerary.isKept)) :
    (outcomeAll (stages ++ [.reinstate tags]) ys).Perm ys := by
  have hkept := forall_isKept_of_subperm hsub
  rw [outcomeAll_append] at hsub ⊢
  change ys.Subperm ((reinstateOne tags (outcomeAll stages xs)).filter Itinerary.isKept) at hsub
  change (reinstateOne tags (outcomeAll stages ys)).Perm ys
  cases hany : (outcomeAll stages xs).any Itinerary.isKept with
  | true =>
    rw [reinstateOne, if_pos hany] at hsub
    have hys := h.settled xs ys hsub
    rwa [reinstateOne_of_forall_isKept tags fun it hit => hkept it (hys.mem_iff.mp hit)]
  | false =>
    have hlength := hsub.length_le.trans (length_filter_isKept_reinstateOne tags hany)
    obtain _ | ⟨y, _ | ⟨z, rest⟩⟩ := ys
    · have hnil : outcomeAll stages [] = [] := (h.settled xs [] (List.nil_subperm)).eq_nil
      rw [hnil]
      simp [reinstateOne]
    · have hy := hone y (hkept y List.mem_cons_self)
      rw [outcomeAll_append] at hy
      exact .of_eq hy
    · simp only [List.length_cons] at hlength
      omega

end Settles
end Stage

namespace Plan
open Stage (Settles Quiet outcomeAll)

/-- Whatever the count of a group: what is alone in it stays, or is reinstated. -/
theorem outcomeAll_count_singleton (tag : String) (count : Nat) {tags : List String}
    (htag : tag ∈ tags) {it : Itinerary} (kept : it.isKept) :
    outcomeAll [.sort .cost, .reject (.beyondCount tag count), .reinstate tags] [it] = [it] := by
  rw [outcomeAll, Stage.outcome_sort_singleton]
  cases count with
  | zero =>
    have htags : it.tags = [] := Itinerary.isKept_iff.mp kept
    have hrejected : (Stage.reject (.beyondCount tag 0)).outcome [it] = [it.reject tag] := by
      simp [Stage.outcome, Flagger.run, Flagger.verdicts, Flagger.tag, rejectBy, kept]
    have hreinstated : (it.reject tag).reinstate tags = it := by
      cases it
      simp_all [Itinerary.reject, Itinerary.reinstate]
    have hout : (it.reject tag).tags.all (· ∈ tags) := by
      simp [Itinerary.tags_reject_of_isKept tag kept, htag]
    rw [outcomeAll, hrejected, outcomeAll, Stage.outcome, outcomeAll]
    simp [reinstateOne, hout, hreinstated]
  | succ count =>
    rw [outcomeAll, Stage.outcome_beyondCount_singleton tag (Nat.le_add_left 1 count) kept,
      outcomeAll, Stage.outcome_reinstate_singleton tags kept, outcomeAll]

theorem settles_similarityStage {s : SimilarityLimit} (h : ¬ 1.0 < s.otherLegsFactor) :
    Settles [similarityStage s] := by
  let perStations : List Stage := if s.perStations then
      [.group s.stationsTag .stations [.sort .cost, .reject (.beyondCount s.stationsTag 1)]]
    else []
  let tags : List String := [s.tag] ++ if s.perStations then [s.stationsTag] else []
  have hstage : similarityStage s = .group s.tag (.trips s.share) ((perStations ++
      [.sort .cost, .reject (.beyondCount s.tag s.max)]) ++ [.reinstate tags]) := by
    simp [similarityStage, h, perStations, tags]
  have hstations : Settles perStations := by
    unfold perStations
    split
    · have hone := (Settles.sort .cost).append (.beyondCount s.stationsTag 1)
      exact .group _ _ hone.quiet hone.settled
    · exact .nil
  have hcount : Settles (perStations ++ [.sort .cost, .reject (.beyondCount s.tag s.max)]) :=
    hstations.append ((Settles.sort .cost).append (.beyondCount s.tag s.max))
  have hone : ∀ it : Itinerary, it.isKept → outcomeAll ((perStations ++
      [.sort .cost, .reject (.beyondCount s.tag s.max)]) ++ [.reinstate tags]) [it] = [it] := by
    intro it kept
    have halone : outcomeAll perStations [it] = [it] := by
      unfold perStations
      split
      · refine Stage.outcomeAll_eq_self (List.forall_mem_singleton.mpr ?_)
        refine Stage.outcome_group_eq_self (by simpa using kept) (List.pairwise_singleton _ _) ?_
        simp [kept, Stage.outcome_sort_singleton, Stage.outcome_beyondCount_singleton]
      · rfl
    rw [List.append_assoc, Stage.outcomeAll_append, halone]
    exact outcomeAll_count_singleton s.tag s.max (by simp [tags]) kept
  rw [hstage]
  refine .group _ _ ?_ (Settles.settled_reinstate hcount hone)
  exact List.forall_mem_append.mpr ⟨hcount.quiet, by simp [Quiet.reinstate]⟩

theorem settles_sameRoutesAndStopsStage (o : SortOrder) : Settles [sameRoutesAndStopsStage o] := by
  have hnested := (Settles.sort (.results o)).append (.beyondCount sameRoutesAndStopsTag 1)
  exact .group _ _ hnested.quiet hnested.settled

variable {p : Plan}

theorem settles_front (h : p.decorators = [])
    (hfactor : ∀ s ∈ p.preferences.similarity, ¬ 1.0 < s.otherLegsFactor) : Settles p.front :=
  front_induction .nil .append (fun _ => .reject_against) h
    (fun s hs => settles_similarityStage (hfactor s hs))
    (settles_sameRoutesAndStopsStage p.order) ((Settles.sort .cost).append .sameEndTrip)

/-- A run on what a run ended with leaves it as it is and cuts nothing, if keys tell itineraries
apart and no costs are counted outside shared trips. -/
theorem run_again (h : p.decorators = []) (debug : p.preferences.debug = .off)
    (hfactor : ∀ s ∈ p.preferences.similarity, ¬ 1.0 < s.otherLegsFactor) {its : List Itinerary}
    (hkeys : ((its.filter Itinerary.isKept).map Itinerary.key).Nodup) :
    ∃ result, p.chain.run its = .ok result ∧
      p.chain.run result.itineraries = .ok ⟨result.itineraries, none⟩ := by
  have hsettles := settles_front h hfactor
  have hoffered : ∀ its, (p.offered its).Perm
      ((outcomeAll p.front its).filter Itinerary.isKept) := by
    intro its
    rw [offered, Stage.runAll_eq_of_quiet hsettles.quiet]
    exact sortByRanks_perm _ _
  refine ⟨_, run_chain h its, ?_⟩
  rw [sweep_gathered h debug]
  dsimp only
  have hlength := Cap.length_crop_snd_le p.max p.croppedEnd (p.offered its)
  have hcropped := Cap.crop_snd_sublist p.max p.croppedEnd (p.offered its)
  generalize (Cap.crop p.max p.croppedEnd (p.offered its)).2 = shown at *
  have hpart : shown.Subperm ((outcomeAll p.front its).filter Itinerary.isKept) :=
    hcropped.subperm.trans (hoffered its).subperm
  -- The rules leave all of what is shown, and its order was that of results.
  have hperm : (p.offered shown).Perm shown := by
    have hleft := hsettles.settled its shown hpart
    refine (hoffered shown).trans ((hleft.filter _).trans (.of_eq ?_))
    exact List.filter_eq_self.mpr (forall_isKept_of_subperm hpart)
  have hagain : p.offered shown = shown := by
    refine hperm.eq_of_pairwise ?_ (offered_pairwise p shown)
      ((offered_pairwise p its).sublist hcropped)
    intro a b ha hb hab hba
    have hkey : a.key = b.key :=
      Std.LawfulEqCmp.eq_of_compare (Std.OrientedCmp.isLE_antisymm hab hba)
    have hwas := hpart.trans (hsettles.shrinks its)
    exact List.inj_on_of_nodup_map hkeys (hwas.subset (hperm.mem_iff.mp ha)) (hwas.subset hb) hkey
  rw [run_chain h, sweep_gathered h debug, hagain, Cap.crop_of_length_le p.croppedEnd hlength,
    Cap.reportOf, if_pos hlength]

/-- A plan with limits per station, per trip and on costs that shows two at most. -/
def thrifty : Plan := { ofPreferences .standard .streetAndDeparture with
  preferences := { FilterPreferences.standard with
    similarity := [.ofShare 0.85 1, (SimilarityLimit.ofShare 0.68 2).withStations 1.0]
    sameEndTrip := true }
  max := 2 }

theorem run_again_thrifty : thrifty.decorators = [] ∧ thrifty.preferences.debug = .off ∧
    (∀ s ∈ thrifty.preferences.similarity, ¬ 1.0 < s.otherLegsFactor) ∧
    (([slowRide, fastRide.reject "seen", stroll, quickRide].filter
      Itinerary.isKept).map Itinerary.key).Nodup ∧
    ∃ result,
      thrifty.chain.run [slowRide, fastRide.reject "seen", stroll, quickRide] = .ok result ∧
      thrifty.chain.run result.itineraries = .ok ⟨result.itineraries, none⟩ := by
  have hfactor : ∀ s ∈ thrifty.preferences.similarity, ¬ 1.0 < s.otherLegsFactor := by decide
  have hkeys : (([slowRide, fastRide.reject "seen", stroll, quickRide].filter
      Itinerary.isKept).map Itinerary.key).Nodup := by decide
  exact ⟨rfl, rfl, hfactor, hkeys, run_again rfl rfl hfactor hkeys⟩

end Plan
end JourneyPages
