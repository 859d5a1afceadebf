import JourneyPages.Filter.Grouping
import JourneyPages.Proofs.Filter.RoutesAndStops
import JourneyPages.Proofs.Trip.CostLine
import JourneyPages.Proofs.Trip.Order

/-!
The characteristic legs of an itinerary. An entry is a transit leg with its place; entries go by
distance from the longest down, and equally long ones by place. As many are picked from the front as
it takes for their distances to add up to the limit. Main statement: there is exactly one such pick,
its legs in the order of the itinerary are the characteristic ones, and a lower limit picks a front
part of what a higher one picks.
-/
namespace JourneyPages

open Number

/-! Entries by distance -/

/-- The leg of one entry is longer than that of the other, or as long and in front of it. -/
def Leads (x y : Leg × Nat) : Prop :=
  Binary64.totalKey y.1.distance < Binary64.totalKey x.1.distance ∨
    Binary64.totalKey y.1.distance = Binary64.totalKey x.1.distance ∧ x.2 < y.2

variable {legs : List Leg} {x y : Leg × Nat} {picked : List (Leg × Nat)}

theorem Leads.asymm (h : Leads x y) : ¬ Leads y x := by
  unfold Leads at *
  omega

theorem Leads.ne (h : Leads x y) : x ≠ y := by
  rintro rfl
  exact h.asymm h

theorem zipIdx_pairwise (legs : List Leg) : legs.zipIdx.Pairwise fun x y => x.2 < y.2 := by
  rw [← List.pairwise_map, List.zipIdx_map_snd]
  exact List.pairwise_lt_range'

/-- Two entries with one place are the same. -/
theorem eq_of_mem_zipIdx (hx : x ∈ legs.zipIdx) (hy : y ∈ legs.zipIdx) (h : x.2 = y.2) : x = y := by
  rw [List.mem_zipIdx_iff_getElem?] at hx hy
  rw [h, hy, Option.some.injEq] at hx
  exact Prod.ext hx.symm h

theorem byDistance_perm (legs : List Leg) : (byDistance legs).Perm legs.zipIdx :=
  List.mergeSort_perm _ _

theorem distanceLE_trans (a b c : Leg × Nat) (hab : Binary64.totalLE b.1.distance a.1.distance)
    (hbc : Binary64.totalLE c.1.distance b.1.distance) :
    Binary64.totalLE c.1.distance a.1.distance := Binary64.totalLE_trans hbc hab

theorem distanceLE_total (a b : Leg × Nat) : Binary64.totalLE b.1.distance a.1.distance ||
    Binary64.totalLE a.1.distance b.1.distance := Binary64.totalLE_total b.1.distance a.1.distance

/-- Sorting is stable: of the entries of one distance nothing is moved. -/
theorem filter_byDistance (legs : List Leg) (k : Int) :
    (byDistance legs).filter (fun x => Binary64.totalKey x.1.distance = k) =
      legs.zipIdx.filter fun x => Binary64.totalKey x.1.distance = k := by
  rw [byDistance, filter_mergeSort distanceLE_trans distanceLE_total]
  refine List.mergeSort_of_pairwise (List.pairwise_of_forall_mem_list fun a ha b hb => ?_)
  have hka := of_decide_eq_true (List.mem_filter.mp ha).2
  have hkb := of_decide_eq_true (List.mem_filter.mp hb).2
  exact decide_eq_true (hkb.trans hka.symm).le

theorem byDistance_pairwise (legs : List Leg) : (byDistance legs).Pairwise Leads := by
  have hsorted := List.pairwise_mergeSort distanceLE_trans distanceLE_total legs.zipIdx
  refine List.pairwise_iff_forall_sublist.mpr fun {x y} hxy => ?_
  have hle : Binary64.totalKey y.1.distance ≤ Binary64.totalKey x.1.distance :=
    of_decide_eq_true (List.pairwise_iff_forall_sublist.mp hsorted hxy)
  rcases hle.lt_or_eq with hlt | heq
  · exact .inl hlt
  · -- Among the entries that are as long as `x` the two are as they were.
    have hpair := hxy.filter fun z =>
      Binary64.totalKey z.1.distance = Binary64.totalKey x.1.distance
    rw [filter_byDistance, List.filter_eq_self.mpr (by simp [heq])] at hpair
    have hplaces := List.pairwise_iff_forall_sublist.mp (zipIdx_pairwise legs)
      (hpair.trans List.filter_sublist)
    exact .inr ⟨heq, hplaces⟩

/-- Entries from the longest down, none of which is led by one that is left out. -/
structure LongestFirst (legs : List Leg) (picked : List (Leg × Nat)) : Prop where
  subset : picked ⊆ legs.zipIdx
  inOrder : picked.Pairwise Leads
  leads : ∀ x ∈ picked, ∀ y ∈ legs.zipIdx, y ∉ picked → Leads x y

theorem LongestFirst.nodup (h : LongestFirst legs picked) : picked.Nodup :=
  h.inOrder.imp Leads.ne

theorem longestFirst_of_append {rest : List (Leg × Nat)} (h : byDistance legs = picked ++ rest) :
    LongestFirst legs picked := by
  have hpairwise := h ▸ byDistance_pairwise legs
  have hmem : ∀ y, y ∈ legs.zipIdx ↔ y ∈ picked ∨ y ∈ rest := fun y => by
    rw [← (byDistance_perm legs).mem_iff, h, List.mem_append]
  obtain ⟨hpicked, -, hacross⟩ := List.pairwise_append.mp hpairwise
  exact ⟨fun y hy => (hmem y).mpr (.inl hy), hpicked,
    fun x hx y hy hnot => hacross x hx y (((hmem y).mp hy).resolve_left hnot)⟩

/-- There is one way only to put entries in order. -/
theorem LongestFirst.isPrefix_byDistance (h : LongestFirst legs picked) :
    picked <+: byDistance legs := by
  classical
  refine ⟨(byDistance legs).filter fun y => y ∉ picked, ?_⟩
  have hnodup : (byDistance legs).Nodup := (byDistance_pairwise legs).imp Leads.ne
  have hsame : picked.Perm ((byDistance legs).filter fun y => y ∈ picked) := by
    refine (List.perm_ext_iff_of_nodup h.nodup (hnodup.filter _)).mpr fun y => ?_
    rw [List.mem_filter, (byDistance_perm legs).mem_iff, decide_eq_true_eq]
    exact ⟨fun hy => ⟨h.subset hy, hy⟩, And.right⟩
  have hperm : (picked ++ (byDistance legs).filter fun y => y ∉ picked).Perm (byDistance legs) := by
    refine (hsame.append_right _).trans ?_
    simpa using List.filter_append_perm (fun y => decide (y ∈ picked)) (byDistance legs)
  refine hperm.eq_of_pairwise (fun a b _ _ hab hba => absurd hba hab.asymm) ?_
    (byDistance_pairwise legs)
  refine List.pairwise_append.mpr ⟨h.inOrder, (byDistance_pairwise legs).filter _, ?_⟩
  intro x hx y hy
  rw [List.mem_filter, (byDistance_perm legs).mem_iff, decide_eq_true_eq] at hy
  exact h.leads x hx y hy.1 hy.2

/-! Distances -/

/-- The distances of some entries, added up in their order. -/
def distanceOver (picked : List (Leg × Nat)) : Float :=
  picked.foldl (fun covered x => covered + x.1.distance) 0.0

@[simp] theorem distanceOver_concat (picked : List (Leg × Nat)) (x : Leg × Nat) :
    distanceOver (picked ++ [x]) = distanceOver picked + x.1.distance := by
  simp [distanceOver]

theorem distanceOver_ne_nan (picked : List (Leg × Nat)) :
    Binary64.ofFloat (distanceOver picked) ≠ .nan := by
  induction picked using List.reverseRecOn with
  | nil => decide
  | append_singleton picked x ih =>
    obtain ⟨hfinite, hpos⟩ := isMeasure_iff.mp x.1.distance_isMeasure
    rw [distanceOver_concat]
    exact (Binary64.le_iff_value_le.mp (Binary64.le_add_of_value_nonneg ih hfinite hpos)).2.1

/-- With more entries the distance does not become less. -/
theorem distanceOver_le_append (front more : List (Leg × Nat)) :
    distanceOver front ≤ distanceOver (front ++ more) := by
  induction more using List.reverseRecOn with
  | nil =>
    rw [List.append_nil, Binary64.le_iff_value_le]
    exact ⟨distanceOver_ne_nan front, distanceOver_ne_nan front, le_rfl⟩
  | append_singleton more x ih =>
    obtain ⟨hfinite, hpos⟩ := isMeasure_iff.mp x.1.distance_isMeasure
    rw [← List.append_assoc, distanceOver_concat]
    exact Binary64.le_trans ih
      (Binary64.le_add_of_value_nonneg (distanceOver_ne_nan _) hfinite hpos)

/-! Picks -/

/-- A pick for a limit: entries from the front, one at least, that do not reach the limit without
the last of them, and that reach it unless all are picked. -/
structure IsPick (legs : List Leg) (limit : Float) (picked : List (Leg × Nat)) : Prop
    extends LongestFirst legs picked where
  ne_nil : picked ≠ []
  needed : 1 < picked.length → ¬ limit ≤ distanceOver picked.dropLast
  covers : (∃ y ∈ legs.zipIdx, y ∉ picked) → limit ≤ distanceOver picked

/-- The entries that are taken after some others, and where that stops. -/
theorem takeCovering_some (limit : Float) (done xs : List (Leg × Nat)) : ∃ taken rest,
    xs = taken ++ rest ∧ takeCovering limit (some (distanceOver done)) xs = taken ∧
    (taken ≠ [] → ¬ limit ≤ distanceOver (done ++ taken.dropLast)) ∧
    (rest ≠ [] → limit ≤ distanceOver (done ++ taken)) := by
  induction xs generalizing done with
  | nil => exact ⟨[], [], rfl, rfl, by simp, by simp⟩
  | cons x xs ih =>
    by_cases h : limit ≤ distanceOver done
    · exact ⟨[], x :: xs, rfl, by simp [takeCovering, h], by simp, by simpa using h⟩
    · obtain ⟨taken, rest, hxs, htaken, hneeded, hcovers⟩ := ih (done ++ [x])
      rw [distanceOver_concat] at htaken
      refine ⟨x :: taken, rest, by rw [hxs, List.cons_append], ?_, fun _ => ?_, fun hrest => ?_⟩
      · rw [takeCovering, if_neg h, htaken]
      · cases taken with
        | nil => simpa using h
        | cons y taken => simpa using hneeded (List.cons_ne_nil y taken)
      · simpa using hcovers hrest

theorem isPick_takeCovering (limit : Float) (hne : legs ≠ []) :
    IsPick legs limit (takeCovering limit none (byDistance legs)) := by
  have hlength : 0 < (byDistance legs).length := by
    rw [(byDistance_perm legs).length_eq, List.length_zipIdx]
    exact List.length_pos_of_ne_nil hne
  obtain ⟨x, xs, hx⟩ := List.exists_cons_of_length_pos hlength
  obtain ⟨taken, rest, rfl, htaken, hneeded, hcovers⟩ := takeCovering_some limit [x] xs
  have hfirst : takeCovering limit none (byDistance legs) = x :: taken := by
    rw [hx, takeCovering]
    exact congrArg (x :: ·) htaken
  have hsplit : byDistance legs = (x :: taken) ++ rest := hx
  rw [hfirst]
  refine ⟨longestFirst_of_append hsplit, List.cons_ne_nil x taken, ?_, ?_⟩
  · intro hlong
    cases taken with
    | nil => simp at hlong
    | cons y taken => simpa using hneeded (List.cons_ne_nil y taken)
  · rintro ⟨y, hy, hnot⟩
    rw [← (byDistance_perm legs).mem_iff, hsplit, List.mem_append] at hy
    exact hcovers (List.ne_nil_of_mem (hy.resolve_left hnot))

namespace IsPick
variable {p q : Float} {ps qs : List (Leg × Nat)}

/-- Where whatever reaches one limit reaches another, what is picked for the other is picked for
the one. -/
theorem isPrefix_of_imp (hp : IsPick legs p ps) (hq : IsPick legs q qs)
    (h : ∀ d : Float, q ≤ d → p ≤ d) : ps <+: qs := by
  rcases List.prefix_or_prefix_of_prefix hp.isPrefix_byDistance hq.isPrefix_byDistance
    with hpre | ⟨more, rfl⟩
  · exact hpre
  rcases List.eq_nil_or_concat' more with rfl | ⟨init, last, rfl⟩
  · rw [List.append_nil]
  · -- The last entry would have been picked although the limit was reached without it.
    exfalso
    have hlong : 1 < (qs ++ (init ++ [last])).length := by
      have := List.length_pos_of_ne_nil hq.ne_nil
      simp only [List.length_append, List.length_singleton]
      omega
    have hlast : last ∈ qs ++ (init ++ [last]) := by simp
    have hnot : last ∉ qs := by
      intro hin
      exact (List.nodup_append.mp hp.nodup).2.2 last hin last (by simp) rfl
    have hreached := hq.covers ⟨last, hp.subset hlast, hnot⟩
    apply hp.needed hlong
    rw [← List.append_assoc, List.dropLast_concat]
    exact h _ (Binary64.le_trans hreached (distanceOver_le_append qs init))

theorem isPrefix (hp : IsPick legs p ps) (hq : IsPick legs q qs) (h : p ≤ q) : ps <+: qs :=
  hp.isPrefix_of_imp hq fun _ => Binary64.le_trans h

theorem unique (hp : IsPick legs p ps) (hq : IsPick legs p qs) : ps = qs := by
  have hpq := hp.isPrefix_of_imp hq fun _ => id
  have hqp := hq.isPrefix_of_imp hp fun _ => id
  exact hpq.eq_of_length_le hqp.length_le

end IsPick

/-! Legs in their places -/

/-- The entries of the legs whose places are picked. -/
def inPlaces (legs : List Leg) (picked : List (Leg × Nat)) : List (Leg × Nat) :=
  legs.zipIdx.filter fun x => x.2 ∈ picked.map (·.2)

/-- A place stands for one entry, so that nothing but what is picked is found in its place. -/
theorem LongestFirst.inPlaces_perm (h : LongestFirst legs picked) :
    (inPlaces legs picked).Perm picked := by
  have hnodup : legs.zipIdx.Nodup := (zipIdx_pairwise legs).imp fun hlt heq => by
    subst heq
    exact absurd hlt (lt_irrefl _)
  refine (List.perm_ext_iff_of_nodup (hnodup.filter _) h.nodup).mpr fun x => ?_
  simp only [List.mem_filter, decide_eq_true_eq, List.mem_map]
  constructor
  · rintro ⟨hx, y, hy, hplace⟩
    rwa [← eq_of_mem_zipIdx (h.subset hy) hx hplace]
  · exact fun hx => ⟨h.subset hx, x, hx, rfl⟩

theorem inPlaces_sublist {ps qs : List (Leg × Nat)} (h : ps ⊆ qs) :
    (inPlaces legs ps).Sublist (inPlaces legs qs) := by
  refine List.monotone_filter_right _ fun x hx => ?_
  rw [decide_eq_true_eq] at hx ⊢
  exact List.map_subset _ h hx

namespace Itinerary

/-- The distance that is travelled by transit. -/
def transitDistance (it : Itinerary) : Float := sumFloats (it.transitLegs.map Leg.distance)

/-- What is picked for a part of the transit distance. -/
def Picks (it : Itinerary) (share : Float) (picked : List (Leg × Nat)) : Prop :=
  IsPick it.transitLegs (share * it.transitDistance) picked

variable {it : Itinerary} {share : Float} {picked : List (Leg × Nat)}

theorem exists_picks (share : Float) (h : it.hasTransit) : ∃ picked, it.Picks share picked := by
  refine ⟨_, isPick_takeCovering (share * it.transitDistance) fun hnil => ?_⟩
  rw [transitLegs_eq_nil_iff.mp hnil] at h
  cases h

theorem Picks.characteristicLegs_eq (h : it.Picks share picked) :
    characteristicLegs share it = (inPlaces it.transitLegs picked).map (·.1) := by
  have hne : it.transitLegs ≠ [] := by
    rintro hnil
    obtain ⟨x, hx⟩ := List.exists_mem_of_ne_nil picked h.ne_nil
    simpa [hnil] using h.subset hx
  rw [h.unique (isPick_takeCovering _ hne)]
  rfl

end Itinerary

/-- For each part of the transit distance there is one pick, and its legs in the order of the
itinerary are the characteristic ones: some of the transit legs, and one at least. For a lower limit
nothing is picked that is not for a higher one. -/
theorem characteristicLegs_by_distance (it : Itinerary) (h : it.hasTransit) :
    (∀ share, ∃ picked, it.Picks share picked ∧ (∀ other, it.Picks share other → other = picked) ∧
      ∃ entries : List (Leg × Nat), entries.Sublist it.transitLegs.zipIdx ∧
        entries.Perm picked ∧ characteristicLegs share it = entries.map (·.1)) ∧
    (∀ share, characteristicLegs share it ≠ [] ∧
      (characteristicLegs share it).Sublist it.transitLegs) ∧
    ∀ low high, low * it.transitDistance ≤ high * it.transitDistance →
      (characteristicLegs low it).Sublist (characteristicLegs high it) ∧
      ∀ ps qs, it.Picks low ps → it.Picks high qs → ps <+: qs := by
  refine ⟨fun share => ?_, fun share => ?_, fun low high hle => ⟨?_, fun ps qs hps hqs => ?_⟩⟩
  · obtain ⟨picked, hpick⟩ := it.exists_picks share h
    exact ⟨picked, hpick, fun other hother => hother.unique hpick, inPlaces it.transitLegs picked,
      List.filter_sublist, hpick.inPlaces_perm, hpick.characteristicLegs_eq⟩
  · obtain ⟨picked, hpick⟩ := it.exists_picks share h
    rw [hpick.characteristicLegs_eq]
    constructor
    · rw [Ne, List.map_eq_nil_iff]
      exact fun hnil => hpick.ne_nil (hnil ▸ hpick.inPlaces_perm).nil_eq.symm
    · have hsub := (List.filter_sublist (l := it.transitLegs.zipIdx)
        (p := fun x => x.2 ∈ picked.map (·.2))).map (·.1)
      rwa [List.zipIdx_map_fst] at hsub
  · obtain ⟨ps, hps⟩ := it.exists_picks low h
    obtain ⟨qs, hqs⟩ := it.exists_picks high h
    rw [hps.characteristicLegs_eq, hqs.characteristicLegs_eq]
    exact (inPlaces_sublist (hps.isPrefix hqs hle).subset).map _
  · exact hps.isPrefix hqs hle

/-- A ride of no time. -/
def Leg.hop (minute : Nat) (distance : Float) (h : isMeasure distance) : Leg :=
  { slowLeg with
    start := .ofMinutes minute
    finish := .ofMinutes minute
    start_le_finish := Int.le_refl _
    distance := distance
    distance_isMeasure := h }

/-- Three rides, the first as long as the last. -/
def threeHops : Itinerary where
  legs := [.hop 1 5000.0 rfl, .hop 2 2000.0 rfl, .hop 3 5000.0 rfl]
  cost := .saturate 10
  tags := []
  notices := []
  decorations := []
  legs_ne_nil := List.cons_ne_nil _ _
  legs_inOrder := by decide

/-- For a quarter of the distance one of the two longest is enough, and it is the first. -/
theorem picks_threeHops : threeHops.Picks 0.25 [(.hop 1 5000.0 rfl, 0)] := by
  have hentries : threeHops.transitLegs.zipIdx =
      [(.hop 1 5000.0 rfl, 0), (.hop 2 2000.0 rfl, 1), (.hop 3 5000.0 rfl, 2)] := rfl
  refine ⟨⟨by simp [hentries], List.pairwise_singleton _ _, ?_⟩, List.cons_ne_nil _ _, by simp,
    fun _ => by decide +kernel⟩
  intro x hx y hy hnot
  rw [List.mem_singleton] at hx hnot
  subst hx
  simp only [hentries, List.mem_cons, hnot, List.not_mem_nil, or_false, false_or] at hy
  rcases hy with rfl | rfl
  · exact .inl (by decide)
  · exact .inr (by decide)

theorem characteristicLegs_by_distance_threeHops :
    characteristicLegs 0.25 threeHops = [.hop 1 5000.0 rfl] ∧
    (characteristicLegs 0.25 threeHops).Sublist (characteristicLegs 0.5 threeHops) ∧
    ∃ picked, threeHops.Picks 0.5 picked ∧ [(.hop 1 5000.0 rfl, 0)] <+: picked := by
  obtain ⟨hpicks, -, hmono⟩ := characteristicLegs_by_distance threeHops (by decide)
  have hlimits : 0.25 * threeHops.transitDistance ≤ 0.5 * threeHops.transitDistance := by
    decide +kernel
  obtain ⟨hsublist, hfront⟩ := hmono 0.25 0.5 hlimits
  obtain ⟨low, -, hlow, entries, -, hperm, hlegs⟩ := hpicks 0.25
  obtain ⟨high, hhigh, -⟩ := hpicks 0.5
  rw [← hlow _ picks_threeHops, List.perm_singleton] at hperm
  rw [hperm] at hlegs
  exact ⟨hlegs, hsublist, high, hhigh, hfront _ _ picks_threeHops hhigh⟩

end JourneyPages
