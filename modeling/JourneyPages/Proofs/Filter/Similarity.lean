import JourneyPages.Proofs.Filter.Grouping
import JourneyPages.Proofs.Filter.Settled

/-!
What a limit on similar itineraries leaves of a group. Its stages take from the group in turn, by
stations, by the cost of other legs and by a count, and put no tags on it but their own, so that a
group that they empty gets one of its members back. Main statement: every group keeps one at least
and no more than the limit, and where only the count takes from it, it keeps the cheapest.
-/
namespace JourneyPages

/-! Tags that stages put on -/

/-- No itinerary has a tag but those given. -/
def TagsWithin (tags : List String) (its : List Itinerary) : Prop :=
  ∀ it ∈ its, ∀ tag ∈ it.tags, tag ∈ tags

section tags
variable {tags : List String} {its : List Itinerary}

theorem Itinerary.mem_tags_reject {it : Itinerary} {tag added : String} :
    tag ∈ (it.reject added).tags ↔ tag ∈ it.tags ∨ tag = added := by
  unfold reject
  split
  case isTrue h =>
    refine ⟨.inl, ?_⟩
    rintro (htag | rfl)
    · exact htag
    · exact h
  case isFalse => simp

theorem tagsWithin_of_isKept (h : ∀ it ∈ its, it.isKept) : TagsWithin tags its := by
  intro it hit tag htag
  rw [Itinerary.isKept_iff.mp (h it hit)] at htag
  cases htag

theorem TagsWithin.rejectBy {tag : String} (htag : tag ∈ tags) (verdicts : List Bool)
    (h : TagsWithin tags its) : TagsWithin tags (rejectBy tag verdicts its) := by
  unfold TagsWithin at *
  fun_induction JourneyPages.rejectBy tag verdicts its with
  | case1 => exact h
  | case2 it rest hk verdicts ih =>
    obtain ⟨hit, hrest⟩ := List.forall_mem_cons.mp h
    refine List.forall_mem_cons.mpr ⟨fun t ht => ?_, ih hrest⟩
    rcases Itinerary.mem_tags_reject.mp ht with ht | rfl
    · exact hit t ht
    · exact htag
  | case3 it rest hk verdicts ih | case5 verdicts it rest hk ih =>
    obtain ⟨hit, hrest⟩ := List.forall_mem_cons.mp h
    exact List.forall_mem_cons.mpr ⟨hit, ih hrest⟩
  | case4 => exact h

end tags

namespace Stage

/-- A stage puts no tags on but those given. -/
def PutsOnly (tags : List String) (s : Stage) : Prop :=
  ∀ its, TagsWithin tags its → TagsWithin tags (s.outcome its)

variable {tags : List String} {stages : List Stage}

theorem putsOnly_reject {flagger : Flagger} (h : flagger.tag ∈ tags) :
    (reject flagger).PutsOnly tags := fun _ hits => hits.rejectBy h _

theorem putsOnly_sort (ranking : Ranking) : (sort ranking).PutsOnly tags := by
  intro its hits it hit
  exact hits it ((mem_sortByRanks _ _).mp hit)

theorem putsOnly_sort_count (ranking : Ranking) {tag : String} (count : Nat) (h : tag ∈ tags) :
    ∀ s ∈ [sort ranking, .reject (.beyondCount tag count)], s.PutsOnly tags :=
  List.forall_mem_cons.mpr ⟨putsOnly_sort ranking,
    List.forall_mem_singleton.mpr (putsOnly_reject h)⟩

theorem tagsWithin_outcomeAll (h : ∀ s ∈ stages, s.PutsOnly tags) {its : List Itinerary}
    (hits : TagsWithin tags its) : TagsWithin tags (outcomeAll stages its) := by
  induction stages generalizing its with
  | nil => exact hits
  | cons s stages ih =>
    obtain ⟨hs, hstages⟩ := List.forall_mem_cons.mp h
    exact ih hstages (hs its hits)

theorem putsOnly_group (h : ∀ s ∈ stages, s.PutsOnly tags) (name : String) (grouping : Grouping) :
    (group name grouping stages).PutsOnly tags := by
  intro its hits it hit
  rw [outcome, List.mem_append, List.mem_flatMap] at hit
  rcases hit with ⟨c, hc, hit⟩ | hit
  · refine tagsWithin_outcomeAll h (fun member hmember => ?_) it hit
    exact hits member (List.mem_of_mem_filter (mem_of_mem_classes hc hmember))
  · exact hits it (List.mem_of_mem_filter hit)

/-! Keys of those that are kept -/

theorem filter_isKept_outcomeAll_subperm
    (h : ∀ s ∈ stages, ∀ its, ((s.outcome its).filter Itinerary.isKept).Subperm
      (its.filter Itinerary.isKept)) (its : List Itinerary) :
    ((outcomeAll stages its).filter Itinerary.isKept).Subperm (its.filter Itinerary.isKept) := by
  induction stages generalizing its with
  | nil => exact .refl _
  | cons s stages ih =>
    obtain ⟨hs, hstages⟩ := List.forall_mem_cons.mp h
    exact (ih hstages (s.outcome its)).trans (hs its)

/-- A group with a count of one keeps one of each key. -/
theorem nodup_key?_group_first (name tag : String) (grouping : Grouping) (ranking : Ranking)
    {its : List Itinerary} (h : ∀ it ∈ its, (grouping.key? it).isSome) :
    ((((group name grouping [.sort ranking, .reject (.beyondCount tag 1)]).outcome its).filter
      Itinerary.isKept).map grouping.key?).Nodup := by
  let left (c : List Itinerary) : List Itinerary :=
    (outcomeAll [.sort ranking, .reject (.beyondCount tag 1)] c).filter Itinerary.isKept
  have hquiet := quiet_sort_count ranking tag 1
  have hleft : ∀ c, ∀ y ∈ left c, ∃ x ∈ c, grouping.key? y = grouping.key? x :=
    fun c y hy => Settles.exists_key?_of_mem_outcomeAll grouping hquiet hy
  rw [filter_isKept_outcome_group, List.nodup_iff_count_le_one]
  intro key
  cases key with
  | none =>
    refine (List.count_eq_zero.mpr fun hmem => ?_).trans_le (Nat.zero_le 1)
    obtain ⟨y, hy, hnone⟩ := List.mem_map.mp hmem
    obtain ⟨c, hc, hyc⟩ := List.mem_flatMap.mp hy
    obtain ⟨x, hx, hkey⟩ := hleft c y hyc
    have hsome := h x (List.mem_of_mem_filter (mem_of_mem_classes hc hx))
    rw [← hkey, hnone] at hsome
    cases hsome
  | some k =>
    have hcount : ∀ xs : List Itinerary, (xs.map grouping.key?).count (some k) =
        (xs.filter fun x => grouping.key? x = some k).length := by
      intro xs
      rw [List.count, List.countP_map, List.countP_eq_length_filter]
      exact congrArg _ (List.filter_congr fun x _ => beq_eq_decide ..)
    rw [hcount, filter_flatMap_classes hleft]
    exact Flagger.length_beyondCount tag 1 _

theorem nodup_map_of_subperm {α β : Type} {f : α → β} {xs ys : List α} (h : ys.Subperm xs)
    (hxs : (xs.map f).Nodup) : (ys.map f).Nodup := by
  obtain ⟨part, hperm, hpart⟩ := h
  exact (hperm.map f).nodup_iff.mp (hxs.sublist (hpart.map f))

end Stage

/-- The stations at which the transit legs begin and end. -/
def Itinerary.stationPairs (it : Itinerary) : List (Option ScopedId × Option ScopedId) :=
  it.transitLegs.map fun l => (l.origin.stationOrStop, l.destination.stationOrStop)

theorem Grouping.key?_stations_eq {a b : Itinerary} (ha : a.hasTransit) (hb : b.hasTransit)
    (h : a.stationPairs = b.stationPairs) : stations.key? a = stations.key? b := by
  rw [key?, key?, if_pos ha, if_pos hb]
  exact congrArg (fun ids => some (GroupKey.stations ids)) h

/-- What a limit may make of a group of similar itineraries. -/
structure ReducedBy (s : SimilarityLimit) (group reduced : List Itinerary) : Prop where
  members : (reduced.map Itinerary.untagged).Perm group
  survivor : reduced.filter Itinerary.isKept ≠ []
  bounded : (reduced.filter Itinerary.isKept).length ≤ max 1 s.max
  stations : s.perStations → (reduced.filter Itinerary.isKept).Pairwise fun a b =>
    a.stationPairs ≠ b.stationPairs
  cheapest : s.perStations = false → ¬ 1.0 < s.otherLegsFactor →
    reduced.filter Itinerary.isKept = if s.max = 0
      then (sortByRanks SortKey.transferRanks group).take 1
      else (sortByRanks SortKey.costRanks group).take s.max

namespace SimilarityLimit
open Stage (outcomeAll Quiet PutsOnly)

variable (s : SimilarityLimit)

/-- Keeps the cheapest for each sequence of stations. -/
def stationStages : List Stage :=
  if s.perStations then
    [.group s.stationsTag .stations [.sort .cost, .reject (.beyondCount s.stationsTag 1)]]
  else []

/-- Takes away what is dear outside the shared trips. -/
def otherLegsStages : List Stage :=
  if 1.0 < s.otherLegsFactor then [.reject (.dearOtherLegs s.otherLegsFactor)] else []

/-- Keeps the cheapest, as many as the limit says. -/
def countStages : List Stage := [.sort .cost, .reject (.beyondCount s.tag s.max)]

/-- All nested stages but the last one, which reinstates. -/
def takingStages : List Stage := s.stationStages ++ (s.otherLegsStages ++ s.countStages)

/-- The tags that the nested stages put on. -/
def ownTags : List String :=
  [s.tag] ++ (if s.perStations then [s.stationsTag] else []) ++
    (if 1.0 < s.otherLegsFactor then [(Flagger.dearOtherLegs s.otherLegsFactor).tag] else [])

theorem similarityStage_eq : Plan.similarityStage s =
    .group s.tag (.trips s.share) (s.takingStages ++ [.reinstate s.ownTags]) := by
  simp [Plan.similarityStage, takingStages, stationStages, otherLegsStages, countStages, ownTags]

theorem quiet_takingStages : ∀ t ∈ s.takingStages ++ [.reinstate s.ownTags], t.Quiet := by
  have h := Plan.quiet_similarityStage s
  rw [similarityStage_eq] at h
  cases h with
  | group hnested => exact hnested

theorem putsOnly_takingStages : ∀ t ∈ s.takingStages, t.PutsOnly s.ownTags := by
  simp only [takingStages, stationStages, otherLegsStages, countStages, List.forall_mem_append]
  and_intros
  · split
    case isTrue h =>
      rw [List.forall_mem_singleton]
      exact Stage.putsOnly_group (Stage.putsOnly_sort_count .cost 1 (by simp [ownTags, h])) _ _
    case isFalse => simp
  · split
    case isTrue h =>
      rw [List.forall_mem_singleton]
      exact Stage.putsOnly_reject (by simp [ownTags, h])
    case isFalse => simp
  · exact Stage.putsOnly_sort_count .cost s.max (by simp [ownTags])

/-- The count has the last word. -/
theorem filter_isKept_takingStages (its : List Itinerary) :
    (outcomeAll s.takingStages its).filter Itinerary.isKept =
      (sortByRanks SortKey.costRanks ((outcomeAll (s.stationStages ++ s.otherLegsStages) its).filter
        Itinerary.isKept)).take s.max := by
  rw [takingStages, ← List.append_assoc, Stage.outcomeAll_append _ s.countStages]
  simp only [countStages, outcomeAll, Stage.outcome, Flagger.filter_isKept_run_beyondCount,
    filter_sortByRanks]
  rfl

variable {s} {c : List Itinerary}

/-- With a grouping by stations, those that are kept differ in them. -/
theorem stations_takingStages (hs : s.perStations) (h : ∀ it ∈ c, it.hasTransit) :
    ((outcomeAll s.takingStages c).filter Itinerary.isKept).Pairwise fun a b =>
      a.stationPairs ≠ b.stationPairs := by
  have hkeys : ∀ it ∈ c, (Grouping.stations.key? it).isSome := fun it hit => by
    simp [Grouping.key?, h it hit]
  have hlater : ∀ t ∈ s.otherLegsStages ++ s.countStages, ∀ its,
      ((t.outcome its).filter Itinerary.isKept).Subperm (its.filter Itinerary.isKept) := by
    have hreject := fun f its => (Stage.corresponds_reject f its).filter_isKept_subperm
    have hsort := fun r its => (Stage.corresponds_sort r its).filter_isKept_subperm
    simp only [otherLegsStages, countStages, List.forall_mem_append]
    refine ⟨?_, by simp [hreject, hsort]⟩
    split <;> simp [hreject]
  have hpart := Stage.filter_isKept_outcomeAll_subperm hlater (outcomeAll s.stationStages c)
  have hnodup := Stage.nodup_key?_group_first s.stationsTag s.stationsTag .stations .cost hkeys
  have hstages : outcomeAll s.stationStages c = (Stage.group s.stationsTag .stations
      [.sort .cost, .reject (.beyondCount s.stationsTag 1)]).outcome c := by
    simp [stationStages, hs, outcomeAll]
  rw [← hstages] at hnodup
  rw [← Stage.outcomeAll_append] at hpart
  have hdifferent := List.pairwise_map.mp (Stage.nodup_map_of_subperm hpart hnodup)
  -- All that is kept comes from the group, and so it has transit.
  have htransit : ∀ it ∈ (outcomeAll s.takingStages c).filter Itinerary.isKept, it.hasTransit := by
    intro it hit
    have hquiet := (List.forall_mem_append.mp s.quiet_takingStages).1
    obtain ⟨before, hbefore, hsame⟩ := List.mem_map.mp
      ((Stage.map_untagged_outcomeAll_perm hquiet c).mem_iff.mp
        (List.mem_map_of_mem (List.mem_of_mem_filter hit)))
    rw [← Itinerary.hasTransit_untagged, ← hsame, Itinerary.hasTransit_untagged]
    exact h before hbefore
  refine hdifferent.imp_of_mem fun ha hb hne hsame => hne ?_
  exact Grouping.key?_stations_eq (htransit _ ha) (htransit _ hb) hsame

/-- Without stations and other legs, the cheapest of a group are kept in front of reinstatement. -/
theorem filter_isKept_of_countOnly (hs : s.perStations = false)
    (hfactor : ¬ 1.0 < s.otherLegsFactor) (hkept : ∀ it ∈ c, it.isKept) :
    (outcomeAll s.takingStages c).filter Itinerary.isKept =
      (sortByRanks SortKey.costRanks c).take s.max := by
  have hnone : s.stationStages ++ s.otherLegsStages = [] := by
    simp [stationStages, otherLegsStages, hs, hfactor]
  rw [filter_isKept_takingStages, hnone, outcomeAll, List.filter_eq_self.mpr hkept]

theorem pairwise_of_length_le_one {α : Type} {R : α → α → Prop} {xs : List α}
    (h : xs.length ≤ 1) : xs.Pairwise R := by
  obtain _ | ⟨x, _ | ⟨y, rest⟩⟩ := xs
  · exact .nil
  · exact List.pairwise_singleton R x
  · simp at h

theorem members_outcomeAll (hkept : ∀ it ∈ c, it.isKept) :
    ((outcomeAll (s.takingStages ++ [.reinstate s.ownTags]) c).map Itinerary.untagged).Perm c :=
  (Stage.map_untagged_outcomeAll_perm s.quiet_takingStages c).trans
    (.of_eq (map_untagged_of_isKept hkept))

/-- Where something is left, nothing is reinstated. -/
theorem reducedBy_of_any (hkept : ∀ it ∈ c, it.isKept)
    (hsame : c.length = 1 ∨ ∀ it ∈ c, it.hasTransit)
    (hany : (outcomeAll s.takingStages c).any Itinerary.isKept = true) :
    ReducedBy s c (outcomeAll (s.takingStages ++ [.reinstate s.ownTags]) c) := by
  have hmembers := members_outcomeAll (s := s) hkept
  have hstay : outcomeAll (s.takingStages ++ [.reinstate s.ownTags]) c =
      outcomeAll s.takingStages c := by
    rw [Stage.outcomeAll_append]
    exact if_pos hany
  rw [hstay] at hmembers ⊢
  have hbounded : ((outcomeAll s.takingStages c).filter Itinerary.isKept).length ≤ s.max := by
    rw [filter_isKept_takingStages]
    exact List.length_take_le _ _
  obtain ⟨it, hit, hitkept⟩ := List.any_eq_true.mp hany
  have hsurvivor := List.ne_nil_of_mem (List.mem_filter.mpr ⟨hit, hitkept⟩)
  refine ⟨hmembers, hsurvivor, hbounded.trans (le_max_right _ _), fun hs => ?_,
    fun hs hfactor => ?_⟩
  · rcases hsame with hone | htransit
    · refine pairwise_of_length_le_one ((List.length_filter_le _ _).trans (Nat.le_of_eq ?_))
      simpa [hone] using hmembers.length_eq
    · exact stations_takingStages hs htransit
  · have hcount := filter_isKept_of_countOnly hs hfactor hkept
    rw [if_neg, hcount]
    intro hzero
    rw [hcount, hzero] at hsurvivor
    exact hsurvivor rfl

/-- Where nothing is left, one is reinstated, since all tags are the limit's own. -/
theorem filter_isKept_of_none (hkept : ∀ it ∈ c, it.isKept)
    (hnone : (outcomeAll s.takingStages c).any Itinerary.isKept = false) :
    (outcomeAll (s.takingStages ++ [.reinstate s.ownTags]) c).filter Itinerary.isKept =
      ((sortByRanks SortKey.transferRanks (outcomeAll s.takingStages c)).take 1).map
        Itinerary.untagged := by
  have htags := Stage.tagsWithin_outcomeAll s.putsOnly_takingStages (tagsWithin_of_isKept hkept)
  rw [Stage.outcomeAll_append]
  refine (filter_isKept_reinstateOne s.ownTags hnone).trans ?_
  rw [List.filter_eq_self.mpr fun it hit => by simpa using htags it hit]

theorem map_untagged_sortByRanks (ranks : SortKey → List Int) (its : List Itinerary) :
    (sortByRanks ranks its).map Itinerary.untagged =
      sortByRanks ranks (its.map Itinerary.untagged) :=
  List.map_mergeSort fun _ _ _ _ => rfl

/-- A count of none sorts a group and rejects all of it. -/
theorem map_untagged_of_countNone (hs : s.perStations = false)
    (hfactor : ¬ 1.0 < s.otherLegsFactor) (hzero : s.max = 0) (hkept : ∀ it ∈ c, it.isKept) :
    (outcomeAll s.takingStages c).map Itinerary.untagged = sortByRanks SortKey.costRanks c := by
  have hsorted : ∀ it ∈ sortByRanks SortKey.costRanks c, it.isKept := fun it hit =>
    hkept it ((mem_sortByRanks _ _).mp hit)
  have hstages : outcomeAll s.takingStages c =
      (Flagger.beyondCount s.tag 0).run (sortByRanks SortKey.costRanks c) := by
    simp [takingStages, stationStages, otherLegsStages, countStages, hs, hfactor, hzero, outcomeAll,
      Stage.outcome, Ranking.ranks]
  rw [hstages, Flagger.run_beyondCount _ _ hsorted]
  simpa [Function.comp_def] using map_untagged_of_isKept hsorted

theorem reducedBy_of_none (hne : c ≠ []) (hkept : ∀ it ∈ c, it.isKept)
    (hnone : (outcomeAll s.takingStages c).any Itinerary.isKept = false) :
    ReducedBy s c (outcomeAll (s.takingStages ++ [.reinstate s.ownTags]) c) := by
  have hmembers := members_outcomeAll (s := s) hkept
  have hfirst := filter_isKept_of_none hkept hnone
  have hlength : (outcomeAll s.takingStages c).length = c.length := by
    have hquiet := (List.forall_mem_append.mp s.quiet_takingStages).1
    simpa using (Stage.map_untagged_outcomeAll_perm hquiet c).length_eq
  have hone : ((outcomeAll (s.takingStages ++ [.reinstate s.ownTags]) c).filter
      Itinerary.isKept).length = 1 := by
    rw [hfirst, List.length_map, List.length_take, (sortByRanks_perm _ _).length_eq, hlength]
    exact Nat.min_eq_left (List.length_pos_of_ne_nil hne)
  refine ⟨hmembers, List.ne_nil_of_length_eq_add_one hone, hone.trans_le (le_max_left _ _),
    fun _ => pairwise_of_length_le_one hone.le, fun hs hfactor => ?_⟩
  -- Only a count of none leaves nothing.
  have hzero : s.max = 0 := by
    have hcount := filter_isKept_of_countOnly hs hfactor hkept
    have hempty : (outcomeAll s.takingStages c).filter Itinerary.isKept = [] := by
      simpa [List.filter_eq_nil_iff] using hnone
    rw [hempty, eq_comm, List.take_eq_nil_iff] at hcount
    refine hcount.resolve_right fun hnil => hne ?_
    have hperm := sortByRanks_perm SortKey.costRanks c
    rw [hnil] at hperm
    exact hperm.nil_eq.symm
  have hties : ∀ a b : SortKey, a.transferRanks = b.transferRanks → a.costRanks = b.costRanks := by
    intro a b h
    simp_all [SortKey.transferRanks, SortKey.costRanks]
  rw [hfirst, if_pos hzero, List.map_take, map_untagged_sortByRanks,
    map_untagged_of_countNone hs hfactor hzero hkept, sortByRanks_sortByRanks _ _ hties]

/-- What is left of a group after all stages. -/
theorem reducedBy (hne : c ≠ []) (hkept : ∀ it ∈ c, it.isKept)
    (hsame : c.length = 1 ∨ ∀ it ∈ c, it.hasTransit) :
    ReducedBy s c (outcomeAll (s.takingStages ++ [.reinstate s.ownTags]) c) := by
  cases h : (outcomeAll s.takingStages c).any Itinerary.isKept with
  | true => exact reducedBy_of_any hkept hsame h
  | false => exact reducedBy_of_none hne hkept h

end SimilarityLimit

theorem Grouping.hasTransit_of_key? {g : Grouping} {it : Itinerary} {k : GroupKey}
    (h : g.key? it = some k) : it.hasTransit := by
  by_contra hnone
  rw [key?, if_neg hnone] at h
  cases h

namespace Plan

/-- Every group of similar itineraries is reduced by itself, and the rejected ones are passed on. -/
theorem similarity_reduces (s : SimilarityLimit) (p : Progress) : ∃ parts,
    List.Forall₂ (ReducedBy s)
      ((Grouping.trips s.share).groups (p.itineraries.filter Itinerary.isKept)) parts ∧
    (similarityStage s).run p =
      .ok ⟨parts.flatten ++ p.itineraries.filter (!·.isKept), p.cap⟩ := by
  let kept := p.itineraries.filter Itinerary.isKept
  let key := (Grouping.trips s.share).key?
  have hclasses : classes key kept = (Grouping.trips s.share).groups kept :=
    classes_eq_map key kept
  refine ⟨((Grouping.trips s.share).groups kept).map
    (Stage.outcomeAll (s.takingStages ++ [.reinstate s.ownTags])), ?_, ?_⟩
  · rw [← hclasses, List.forall₂_map_right_iff, List.forall₂_same]
    intro c hc
    have hkept : ∀ it ∈ c, it.isKept := fun it hit => List.of_mem_filter (mem_of_mem_classes hc hit)
    rcases eq_of_mem_classes hc with ⟨x, hx, -, rfl⟩ | ⟨x, hx, k, hk, rfl⟩
    · exact SimilarityLimit.reducedBy (by simp) hkept (.inl rfl)
    · have hmem : x ∈ kept.filter fun y => key y = some k :=
        List.mem_filter.mpr ⟨hx, decide_eq_true hk⟩
      refine SimilarityLimit.reducedBy (List.ne_nil_of_mem hmem) hkept (.inr fun it hit => ?_)
      exact Grouping.hasTransit_of_key? (by simpa [key] using List.of_mem_filter hit)
  · rw [SimilarityLimit.similarityStage_eq, (Stage.Quiet.group s.quiet_takingStages).run_eq,
      Stage.outcome, ← hclasses, List.flatMap]

end Plan
end JourneyPages
