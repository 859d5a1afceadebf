import JourneyPages.Filter.Cap
import JourneyPages.Proofs.Filter.Run

/-!
The cap by what it keeps. Places in the list are only a means: the kept itineraries in sort order
are cropped at one end, and everything else follows from that list.
-/
namespace JourneyPages
namespace Cap

section crop
variable {α β : Type} (max : Nat) (e : ListEnd) (xs : List α)

theorem crop_append : (match e with
    | .tail => (crop max e xs).2 ++ (crop max e xs).1
    | .head => (crop max e xs).1 ++ (crop max e xs).2) = xs := by
  cases e <;> simp [crop]

theorem crop_map (f : α → β) :
    crop max e (xs.map f) = ((crop max e xs).1.map f, (crop max e xs).2.map f) := by
  cases e <;> simp [crop]

theorem boundary?_map (f : α → β) : boundary? e (xs.map f) = (boundary? e xs).map f := by
  cases e <;> simp [boundary?]

theorem length_crop_fst : (crop max e xs).1.length = xs.length - max := by
  cases e <;> simp [crop]

theorem length_crop_snd_le : (crop max e xs).2.length ≤ max := by
  cases e <;> simp only [crop, List.length_take, List.length_drop] <;> omega

theorem crop_snd_sublist : (crop max e xs).2.Sublist xs := by
  cases e
  · exact List.drop_sublist _ xs
  · exact List.take_sublist _ xs

variable {max xs}

theorem mem_of_mem_crop_fst {x : α} (h : x ∈ (crop max e xs).1) : x ∈ xs := by
  cases e
  · exact List.mem_of_mem_take h
  · exact List.mem_of_mem_drop h

theorem mem_of_mem_crop_snd {x : α} (h : x ∈ (crop max e xs).2) : x ∈ xs :=
  (crop_snd_sublist max e xs).subset h

theorem mem_crop_of_mem {x : α} (h : x ∈ xs) : x ∈ (crop max e xs).1 ∨ x ∈ (crop max e xs).2 := by
  rw [← crop_append max e xs] at h
  cases e
  · exact List.mem_append.mp h
  · exact (List.mem_append.mp h).symm

theorem crop_of_length_le (h : xs.length ≤ max) : crop max e xs = ([], xs) := by
  cases e
  · simp [crop, Nat.sub_eq_zero_of_le h]
  · simp [crop, h, List.take_of_length_le h]

end crop

/-- What a cap reports on a list in sort order. -/
def reportOf (max : Nat) (e : ListEnd) (sorted : List Itinerary) : Option CapReport :=
  if sorted.length ≤ max then none
  else (boundary? e (crop max e sorted).2).map (report e (sorted.length - max))

variable {max : Nat} {e : ListEnd} {o : SortOrder} {its : List Itinerary}

/-! Candidates -/

theorem mem_candidates {x : Itinerary × Nat} :
    x ∈ candidates o its ↔ its[x.2]? = some x.1 ∧ x.1.isKept := by
  rw [candidates, List.mem_mergeSort, List.mem_filter, List.mem_zipIdx_iff_getElem?]

theorem map_fst_filter_zipIdx (q : Itinerary → Bool) (its : List Itinerary) :
    (its.zipIdx.filter fun x => q x.1).map Prod.fst = its.filter q := by
  calc (its.zipIdx.filter fun x => q x.1).map Prod.fst
      = (its.zipIdx.map Prod.fst).filter q := List.filter_map.symm
    _ = its.filter q := by rw [List.zipIdx_map_fst]

/-- Sorting itineraries together with their places. -/
theorem map_fst_mergeSort (xs : List (Itinerary × Nat)) :
    (xs.mergeSort fun a b => (o.compare a.1.key b.1.key).isLE).map Prod.fst =
      sortByRanks o.ranks (xs.map Prod.fst) :=
  List.map_mergeSort fun _ _ _ _ => rfl

theorem map_fst_candidates (o : SortOrder) (its : List Itinerary) :
    (candidates o its).map Prod.fst = sortByRanks o.ranks (its.filter Itinerary.isKept) := by
  rw [candidates, map_fst_mergeSort, map_fst_filter_zipIdx]

theorem filter_candidates (o : SortOrder) (its : List Itinerary) (q : Nat → Bool) :
    (candidates o its).filter (fun x => q x.2) =
      ((its.zipIdx.filter (·.1.isKept)).filter fun x => q x.2).mergeSort
        fun a b => (o.compare a.1.key b.1.key).isLE :=
  filter_mergeSort (fun a b c => rankLE_trans o.ranks a.1 b.1 c.1)
    (fun a b => rankLE_total o.ranks a.1 b.1) _ _

theorem nodup_map_snd_filter (q : Itinerary × Nat → Bool) (its : List Itinerary) :
    ((its.zipIdx.filter q).map Prod.snd).Nodup := by
  have hall : (its.zipIdx.map Prod.snd).Nodup := by
    rw [List.zipIdx_map_snd]
    exact List.nodup_range'
  exact hall.sublist (List.filter_sublist.map _)

theorem nodup_places : ((candidates o its).map Prod.snd).Nodup := by
  have hperm := (List.mergeSort_perm (its.zipIdx.filter (·.1.isKept))
    fun a b => (o.compare a.1.key b.1.key).isLE).map Prod.snd
  exact hperm.nodup_iff.mpr (nodup_map_snd_filter _ its)

/-- Places tell the two parts of a crop apart. -/
theorem filter_places_crop {xs : List (Itinerary × Nat)} (h : (xs.map Prod.snd).Nodup) :
    xs.filter (fun x => x.2 ∉ (crop max e xs).1.map Prod.snd) = (crop max e xs).2 := by
  have hsplit := crop_append max e xs
  generalize crop max e xs = parts at hsplit ⊢
  obtain ⟨dropped, kept⟩ := parts
  have hdisjoint : ∀ x ∈ kept, x.2 ∉ dropped.map Prod.snd := by
    intro x hx hmem
    cases e
    all_goals
      subst hsplit
      simp only [List.map_append] at h
      have hne := (List.nodup_append.mp h).2.2
    · exact hne _ hmem _ (List.mem_map_of_mem hx) rfl
    · exact hne _ (List.mem_map_of_mem hx) _ hmem rfl
  have hkept : kept.filter (fun x => x.2 ∉ dropped.map Prod.snd) = kept :=
    List.filter_eq_self.mpr fun x hx => by simpa using hdisjoint x hx
  have hdropped : dropped.filter (fun x => x.2 ∉ dropped.map Prod.snd) = [] :=
    List.filter_eq_nil_iff.mpr fun x hx => by simpa using ⟨x.1, hx⟩
  cases e <;> subst hsplit <;> simp only [List.filter_append, hkept, hdropped] <;> simp

/-! The cap on the whole list -/

/-- Rejecting at some places. -/
theorem filter_isKept_reject (places : List Nat) (xs : List (Itinerary × Nat)) :
    (xs.map fun x => if x.2 ∈ places then x.1.reject tag else x.1).filter Itinerary.isKept =
      ((xs.filter (·.1.isKept)).filter fun x => x.2 ∉ places).map Prod.fst := by
  induction xs with
  | nil => rfl
  | cons x xs ih =>
    rw [List.map_cons, List.filter_cons, List.filter_cons, ih]
    by_cases hp : x.2 ∈ places
    · cases x.1.isKept <;> simp [hp]
    · cases hk : x.1.isKept <;> simp [hp, hk]

/-- A cap that is not exceeded leaves the list alone. -/
theorem run_of_length_le (o : SortOrder) (h : (its.filter Itinerary.isKept).length ≤ max) :
    run max e o its = (its, none) := by
  have hlen := congrArg List.length (map_fst_candidates o its)
  rw [List.length_map, (sortByRanks_perm _ _).length_eq] at hlen
  unfold run
  rw [← hlen] at h
  dsimp only
  rw [if_pos h]

theorem run_snd (max : Nat) (e : ListEnd) (o : SortOrder) (its : List Itinerary) :
    (run max e o its).2 =
      reportOf max e (sortByRanks o.ranks (its.filter Itinerary.isKept)) := by
  have hlen := congrArg List.length (map_fst_candidates o its)
  rw [List.length_map] at hlen
  unfold run reportOf
  rw [← hlen, ← map_fst_candidates]
  dsimp only
  split
  · rfl
  · dsimp only
    rw [crop_map, boundary?_map, Option.map_map, length_crop_fst]
    rfl

theorem sortByRanks_run (max : Nat) (e : ListEnd) (o : SortOrder) (its : List Itinerary) :
    sortByRanks o.ranks ((run max e o its).1.filter Itinerary.isKept) =
      (crop max e (sortByRanks o.ranks (its.filter Itinerary.isKept))).2 := by
  rw [← map_fst_candidates o its, crop_map]
  unfold run
  dsimp only
  split
  case isTrue h => rw [crop_of_length_le e h, map_fst_candidates]
  case isFalse h =>
    dsimp only
    rw [← filter_places_crop nodup_places]
    generalize (crop max e (candidates o its)).1.map Prod.snd = places
    have hcandidates := filter_candidates o its fun i => decide (i ∉ places)
    rw [hcandidates, map_fst_mergeSort, ← filter_isKept_reject]

/-- Only what was kept is rejected. -/
theorem forall₂_run (max : Nat) (e : ListEnd) (o : SortOrder) (its : List Itinerary) :
    List.Forall₂ Itinerary.Marked its (run max e o its).1 := by
  unfold run
  dsimp only
  split
  case isTrue => exact List.forall₂_same.mpr fun it _ => .refl it
  case isFalse =>
    refine forall₂_map_zipIdx fun it i hi => ?_
    dsimp only
    split
    case isTrue hplace =>
      obtain ⟨x, hx, rfl⟩ := List.mem_map.mp hplace
      obtain ⟨hat, hkept⟩ := mem_candidates.mp (mem_of_mem_crop_fst e hx)
      cases Option.some.inj (hi.symm.trans hat)
      exact .reject hkept tag
    case isFalse => exact .refl it

/-- Where keys tell the itineraries apart, it is the key that decides, and not the place. -/
theorem run_fst_of_nodup (max : Nat) (e : ListEnd) (o : SortOrder)
    (h : (its.map Itinerary.key).Nodup) : (run max e o its).1 = its.map fun it =>
      if it.key ∈ (crop max e (sortByRanks o.ranks (its.filter Itinerary.isKept))).1.map
        Itinerary.key then it.reject tag else it := by
  rw [← map_fst_candidates o its, crop_map]
  unfold run
  dsimp only
  split
  case isTrue hle => simp [crop_of_length_le e hle]
  case isFalse =>
    dsimp only
    apply List.ext_getElem?
    intro i
    rw [List.getElem?_map, List.getElem?_map, List.getElem?_zipIdx]
    cases hi : its[i]? with
    | none => rfl
    | some it =>
      -- No two places have one key.
      have hplace : i ∈ (crop max e (candidates o its)).1.map Prod.snd ↔
          it.key ∈ ((crop max e (candidates o its)).1.map Prod.fst).map Itinerary.key := by
        rw [List.map_map, List.mem_map, List.mem_map]
        apply exists_congr
        rintro ⟨dropped, j⟩
        apply and_congr_right
        intro hmem
        have hj := (mem_candidates.mp (mem_of_mem_crop_fst e hmem)).1
        constructor
        · rintro rfl
          exact congrArg Itinerary.key (Option.some.inj (hj.symm.trans hi))
        · intro hkey
          have hlt : j < (its.map Itinerary.key).length := by
            rw [List.length_map]
            exact (List.getElem?_eq_some_iff.mp hj).1
          apply (List.getElem?_inj hlt h).mp
          rw [List.getElem?_map, List.getElem?_map, hi, hj]
          exact congrArg some hkey
      simp only [Option.map_some, Nat.zero_add, hplace]

theorem retains (max : Nat) (e : ListEnd) (o : SortOrder) : (Stage.cap max e o).Retains := by
  intro p q hq
  have hits : q.itineraries = (run max e o p.itineraries).1 := by
    simp only [Stage.run] at hq
    obtain rfl := Except.ok.inj hq
    rfl
  rw [hits]
  exact (Corresponds.of_forall₂ (forall₂_run max e o p.itineraries)).map_perm
    Itinerary.Marked.untagged

/-- The cap rejects what a crop of the kept itineraries in sort order takes off. -/
theorem rejects_iff {it : Itinerary} :
    (∃ (i : Nat) (rejected : Itinerary), its[i]? = some it ∧ it.isKept ∧
      (run max e o its).1[i]? = some rejected ∧ rejected.isKept = false) ↔
    it ∈ (crop max e (sortByRanks o.ranks (its.filter Itinerary.isKept))).1 := by
  rw [← map_fst_candidates o its, crop_map, List.mem_map]
  unfold run
  dsimp only
  split
  case isTrue h =>
    rw [crop_of_length_le e h]
    constructor
    · rintro ⟨i, rejected, hi, hkept, hr, hnot⟩
      rw [hi] at hr
      cases hr
      simp [hkept] at hnot
    · rintro ⟨x, hx, -⟩
      cases hx
  case isFalse h =>
    dsimp only
    constructor
    · rintro ⟨i, rejected, hi, hkept, hr, hnot⟩
      simp only [List.getElem?_map, List.getElem?_zipIdx, hi, Option.map_some,
        Option.some.injEq, Nat.zero_add] at hr
      split at hr
      case isTrue hp =>
        obtain ⟨⟨y, j⟩, hy, rfl⟩ := List.mem_map.mp hp
        have hplace := (mem_candidates.mp (mem_of_mem_crop_fst e hy)).1
        rw [hi] at hplace
        cases hplace
        exact ⟨_, hy, rfl⟩
      case isFalse =>
        rw [← hr, hkept] at hnot
        cases hnot
    · rintro ⟨⟨y, i⟩, hy, rfl⟩
      obtain ⟨hi, hkept⟩ := mem_candidates.mp (mem_of_mem_crop_fst e hy)
      refine ⟨i, y.reject tag, hi, hkept, ?_, Itinerary.isKept_reject y tag⟩
      simp [List.getElem?_zipIdx, hi, List.mem_map.mpr ⟨_, hy, rfl⟩]

/-! The cut -/

theorem mem_of_boundary? {α : Type} {xs : List α} {x : α} (h : boundary? e xs = some x) :
    x ∈ xs := by
  cases e
  · exact List.mem_of_head? h
  · exact List.mem_of_getLast? h

variable {sorted : List Itinerary} {report : CapReport} {x : Itinerary}

/-- A cap that reports a cut left something, and the cut is the boundary of what it left. -/
theorem boundary_of_reportOf (h : reportOf max e sorted = some report) :
    ∃ it, boundary? e (crop max e sorted).2 = some it ∧ it.key = report.cut := by
  unfold reportOf at h
  split at h
  · cases h
  · obtain ⟨it, hit, rfl⟩ := Option.map_eq_some_iff.mp h
    exact ⟨it, hit, rfl⟩

theorem max_lt_of_reportOf (h : reportOf max e sorted = some report) : max < sorted.length := by
  unfold reportOf at h
  split at h
  case isTrue => cases h
  case isFalse hlt => exact Nat.lt_of_not_le hlt

/-- A cap of one at least that reports nothing leaves everything. -/
theorem crop_of_reportOf_eq_none (hmax : 1 ≤ max) (h : reportOf max e sorted = none) :
    crop max e sorted = ([], sorted) := by
  apply crop_of_length_le e
  by_contra hlt
  rw [reportOf, if_neg hlt, Option.map_eq_none_iff] at h
  cases e <;> simp [boundary?, crop] at h
  · omega
  · rcases h with rfl | rfl
    · omega
    · simp at hlt

variable (hsorted : sorted.Pairwise fun a b => (o.compare a.key b.key).isLE)
include hsorted

/-- What a cap leaves is on the side of its cut that a later page need not show again. -/
theorem alreadyShown_of_mem_kept (h : reportOf max e sorted = some report)
    (hx : x ∈ (crop max e sorted).2) :
    (Flagger.alreadyShown o e.opposite report.cut).rejectsAlone x := by
  obtain ⟨it, hit, hcut⟩ := boundary_of_reportOf h
  have hself : (o.compare it.key it.key).isLE := Std.ReflCmp.isLE_rfl
  rw [← hcut]
  cases e
  case tail =>
    obtain ⟨front, hkept⟩ := List.getLast?_eq_some_iff.mp hit
    have hp : (front ++ [it]).Pairwise fun a b => (o.compare a.key b.key).isLE :=
      hkept ▸ hsorted.sublist (List.take_sublist max sorted)
    rw [hkept, List.mem_append, List.mem_singleton] at hx
    rcases hx with hx | rfl
    · exact (List.pairwise_append.mp hp).2.2 x hx it (by simp)
    · exact hself
  case head =>
    obtain ⟨back, hkept⟩ := List.head?_eq_some_iff.mp hit
    have hp : (it :: back).Pairwise fun a b => (o.compare a.key b.key).isLE :=
      hkept ▸ hsorted.sublist (List.drop_sublist _ sorted)
    rw [hkept, List.mem_cons] at hx
    have hle : (o.compare it.key x.key).isLE := by
      rcases hx with rfl | hx
      · exact hself
      · exact (List.pairwise_cons.mp hp).1 x hx
    exact SortOrder.isGE_compare_iff.mpr hle

/-- What a cap takes off sorts with the cut or beyond it. -/
theorem isLE_of_mem_dropped (h : reportOf max e sorted = some report)
    (hx : x ∈ (crop max e sorted).1) :
    (match e with
    | .tail => o.compare report.cut x.key
    | .head => o.compare x.key report.cut).isLE := by
  obtain ⟨it, hit, hcut⟩ := boundary_of_reportOf h
  have hmem := mem_of_boundary? hit
  rw [← crop_append max e sorted] at hsorted
  rw [← hcut]
  cases e
  · exact (List.pairwise_append.mp hsorted).2.2 x hx it hmem
  · exact (List.pairwise_append.mp hsorted).2.2 it hmem x hx

/-- So a later page that knows the cut passes over none of it, but for a key equal to the cut. -/
theorem key_eq_cut_of_mem_dropped (h : reportOf max e sorted = some report)
    (hx : x ∈ (crop max e sorted).1)
    (hr : (Flagger.alreadyShown o e.opposite report.cut).rejectsAlone x) :
    x.key = report.cut := by
  have hle := isLE_of_mem_dropped hsorted h hx
  cases e
  case tail => exact SortOrder.eq_of_isLE_compare hr hle
  case head => exact SortOrder.eq_of_isLE_compare hle (SortOrder.isGE_compare_iff.mp hr)

/-- If all keys differ, the cut tells the two parts of a crop apart. -/
theorem filter_alreadyShown (h : reportOf max e sorted = some report)
    (hkeys : (sorted.map Itinerary.key).Nodup) :
    sorted.filter (fun x => !(Flagger.alreadyShown o e.opposite report.cut).rejectsAlone x) =
      (crop max e sorted).1 := by
  obtain ⟨it, hit, hcut⟩ := boundary_of_reportOf h
  have hmem := mem_of_boundary? hit
  have hkept : (crop max e sorted).2.filter
      (fun x => !(Flagger.alreadyShown o e.opposite report.cut).rejectsAlone x) = [] := by
    apply List.filter_eq_nil_iff.mpr
    intro x hx
    simp [alreadyShown_of_mem_kept hsorted h hx]
  have hdropped : (crop max e sorted).1.filter
      (fun x => !(Flagger.alreadyShown o e.opposite report.cut).rejectsAlone x) =
        (crop max e sorted).1 := by
    apply List.filter_eq_self.mpr
    intro x hx
    rw [Bool.not_eq_true']
    by_contra hr
    have hkey : x.key = it.key :=
      (key_eq_cut_of_mem_dropped hsorted h hx (by simpa using hr)).trans hcut.symm
    have hsplit := crop_append max e sorted
    cases e
    all_goals
      rw [← hsplit, List.map_append] at hkeys
      have hne := (List.nodup_append.mp hkeys).2.2
    · exact hne _ (List.mem_map_of_mem hx) _ (List.mem_map_of_mem hmem) hkey
    · exact hne _ (List.mem_map_of_mem hmem) _ (List.mem_map_of_mem hx) hkey.symm
  have hsplit := crop_append max e sorted
  cases e
  · conv_lhs => rw [← hsplit]
    rw [List.filter_append, hkept, hdropped, List.append_nil]
  · conv_lhs => rw [← hsplit]
    rw [List.filter_append, hkept, hdropped, List.nil_append]

omit hsorted in
/-- A cap at the tail does not look behind a list that is long enough. -/
theorem reportOf_append (h : reportOf max .tail sorted = some report) (rest : List Itinerary) :
    ∃ report', reportOf max .tail (sorted ++ rest) = some report' ∧ report'.cut = report.cut := by
  obtain ⟨it, hit, hcut⟩ := boundary_of_reportOf h
  have hlt := max_lt_of_reportOf h
  have hboundary : boundary? .tail (crop max .tail (sorted ++ rest)).2 = some it := by
    simp only [crop, List.take_append_of_le_length hlt.le]
    exact hit
  have hlong : ¬ (sorted ++ rest).length ≤ max := by
    rw [List.length_append]
    omega
  refine ⟨Cap.report .tail ((sorted ++ rest).length - max) it, ?_, hcut⟩
  rw [reportOf, if_neg hlong, hboundary, Option.map_some]

end Cap
end JourneyPages
