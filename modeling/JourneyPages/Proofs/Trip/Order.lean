import JourneyPages.Proofs.Time.Instant
import JourneyPages.Trip.Itinerary
import Mathlib.Data.List.Sort

/-!
Comparison of ranks is a linear order, and so is each result order on sort keys: keys compare
equal only if they are the same. Lists are sorted stably, so that leaving out entries and sorting
may change places.
-/
namespace JourneyPages

theorem compareRanks_eq_compareLex : compareRanks = List.compareLex compare := by
  funext a b
  induction a generalizing b with
  | nil => cases b <;> rfl
  | cons x a ih =>
    cases b with
    | nil => rfl
    | cons y b =>
      rw [List.compareLex_cons_cons, compareRanks, ih b]
      rcases lt_trichotomy x y with h | h | h
      · simp [h, compare_lt_iff_lt.mpr h]
      · simp [h]
      · simp [h, compare_gt_iff_gt.mpr h, not_lt_of_gt h]

instance : Std.TransCmp compareRanks := compareRanks_eq_compareLex ▸ inferInstance
instance : Std.LawfulEqCmp compareRanks := compareRanks_eq_compareLex ▸ inferInstance

namespace SortOrder

theorem ranks_injective (o : SortOrder) : Function.Injective o.ranks := by
  intro a b h
  have street : a.streetOnly = b.streetOnly := by
    cases o <;> cases ha : a.streetOnly <;> cases hb : b.streetOnly <;> simp_all [ranks]
  ext1
  case transfers => cases o <;> simp only [ranks, List.cons.injEq] at h <;> omega
  all_goals cases o <;> simp_all [ranks, Instant.ext_iff, Cost.ext_iff]

instance (o : SortOrder) : Std.TransCmp o.compare where
  eq_swap := by
    intro a b
    exact Std.OrientedCmp.eq_swap (a := o.ranks a)
  isLE_trans := by
    intro a b c hab hbc
    exact Std.TransCmp.isLE_trans (b := o.ranks b) hab hbc

instance (o : SortOrder) : Std.LawfulEqCmp o.compare where
  compare_self := by
    intro a
    exact Std.ReflCmp.compare_self (a := o.ranks a)
  eq_of_compare h := o.ranks_injective (Std.LawfulEqCmp.eq_of_compare h)

variable {o : SortOrder} {a b c : SortKey}

theorem compare_swap (o : SortOrder) (a b : SortKey) : o.compare b a = (o.compare a b).swap :=
  Std.OrientedCmp.eq_swap

theorem isGE_compare_iff : (o.compare a b).isGE ↔ (o.compare b a).isLE := by
  rw [o.compare_swap a b]
  cases o.compare a b <;> simp

/-- Of two keys one is in front of the other, or they are level. -/
theorem isLE_compare_of_not (h : (o.compare a b).isLE = false) : (o.compare b a).isLE := by
  rw [o.compare_swap a b]
  cases hab : o.compare a b <;> simp_all

theorem eq_of_isLE_compare (hab : (o.compare a b).isLE) (hba : (o.compare b a).isLE) : a = b := by
  have heq : o.compare a b = .eq := by
    rw [o.compare_swap a b] at hba
    cases h : o.compare a b <;> simp_all
  exact Std.LawfulEqCmp.eq_of_compare heq

/-- With transit, an order by departure puts late departures first. -/
theorem start_le_of_isLE_compare (ha : a.streetOnly = false) (hb : b.streetOnly = false)
    (h : (streetAndDeparture.compare a b).isLE) : b.start ≤ a.start := by
  rw [Instant.le_iff]
  by_contra hlt
  simp only [compare, ranks, compareRanks, ha, hb] at h
  simp [show -b.start.ticks < -a.start.ticks by omega,
    show ¬ -a.start.ticks < -b.start.ticks by omega] at h

end SortOrder

theorem Itinerary.streetOnly_key {it : Itinerary} (h : it.hasTransit) :
    it.key.streetOnly = false := by
  simpa [key, isStreetOnly] using h

/-! Sorting -/

section mergeSort
variable {α : Type} {le : α → α → Bool}

/-- An entry goes in front of the first one that is not below it. -/
theorem orderedInsert_append {a : α} {front back : List α} (hf : ∀ b ∈ front, le a b = false)
    (hb : ∀ b ∈ back, le a b = true) :
    (front ++ back).orderedInsert (fun x y => le x y = true) a = front ++ a :: back := by
  induction front with
  | nil =>
    cases back with
    | nil => rfl
    | cons b back => exact List.orderedInsert_cons_of_le _ _ (hb b List.mem_cons_self)
  | cons b front ih =>
    have hab := hf b List.mem_cons_self
    rw [List.cons_append, List.orderedInsert_cons, if_neg (by simp [hab]),
      ih fun c hc => hf c (List.mem_cons_of_mem b hc)]
    rfl

variable (trans : ∀ a b c, le a b → le b c → le a c) (total : ∀ a b, le a b || le b a)
include trans total

/-- A merge sort of one entry more parts where the new one stands. -/
theorem mergeSort_cons_parts (a : α) (xs : List α) : ∃ front back,
    (a :: xs).mergeSort le = front ++ a :: back ∧ xs.mergeSort le = front ++ back ∧
    (∀ b ∈ front, le a b = false) ∧ ∀ b ∈ back, le a b = true := by
  obtain ⟨front, back, hall, hrest, hfront⟩ := List.mergeSort_cons trans total a xs
  have hsorted := List.pairwise_mergeSort trans total (a :: xs)
  rw [hall] at hsorted
  have hback := (List.pairwise_cons.mp (List.pairwise_append.mp hsorted).2.1).1
  exact ⟨front, back, hall, hrest, fun b hb => by simpa using hfront b hb, hback⟩

theorem mergeSort_cons_eq_orderedInsert (a : α) (xs : List α) : (a :: xs).mergeSort le =
    (xs.mergeSort le).orderedInsert (fun x y => le x y = true) a := by
  obtain ⟨front, back, hall, hrest, hfront, hback⟩ := mergeSort_cons_parts trans total a xs
  rw [hall, hrest, orderedInsert_append hfront hback]

/-- Merging and inserting sort a list alike, also where entries are equivalent. -/
theorem mergeSort_eq_insertionSort (xs : List α) :
    xs.mergeSort le = xs.insertionSort fun x y => le x y = true := by
  induction xs with
  | nil => simp
  | cons a xs ih =>
    rw [mergeSort_cons_eq_orderedInsert trans total, ih, List.insertionSort_cons]

/-- A stable sort leaves some of the entries as it would leave them by themselves. -/
theorem filter_mergeSort (q : α → Bool) (xs : List α) :
    (xs.mergeSort le).filter q = (xs.filter q).mergeSort le := by
  induction xs with
  | nil => simp
  | cons a xs ih =>
    obtain ⟨front, back, hall, hrest, hfront, hback⟩ := mergeSort_cons_parts trans total a xs
    rw [hrest, List.filter_append] at ih
    rw [hall, List.filter_append]
    by_cases ha : q a = true
    · rw [List.filter_cons_of_pos ha, List.filter_cons_of_pos ha,
        mergeSort_cons_eq_orderedInsert trans total, ← ih]
      refine (orderedInsert_append ?_ ?_).symm
      · intro b hb
        exact hfront b (List.mem_of_mem_filter hb)
      · intro b hb
        exact hback b (List.mem_of_mem_filter hb)
    · rw [List.filter_cons_of_neg ha, List.filter_cons_of_neg ha]
      exact ih

/-- Where the order tells the entries apart, nothing else decides on their places. -/
theorem mergeSort_eq_of_perm {xs ys : List α} (h : xs.Perm ys)
    (antisymm : ∀ a ∈ xs, ∀ b ∈ xs, le a b → le b a → a = b) :
    xs.mergeSort le = ys.mergeSort le := by
  have hperm := ((List.mergeSort_perm xs le).trans h).trans (List.mergeSort_perm ys le).symm
  refine hperm.eq_of_pairwise ?_ (List.pairwise_mergeSort trans total xs)
    (List.pairwise_mergeSort trans total ys)
  intro a b ha hb hab hba
  rw [List.mem_mergeSort] at ha hb
  exact antisymm a ha b (h.mem_iff.mpr hb) hab hba

end mergeSort

/-- Lists that are sorted by keys are the same if all keys have the same entries in the same
order. -/
theorem eq_of_filter_key {α κ : Type} [DecidableEq κ] (key : α → κ) (le : κ → κ → Prop)
    (refl : ∀ k, le k k) (antisymm : ∀ k l, le k l → le l k → k = l) {xs ys : List α}
    (hx : xs.Pairwise fun a b => le (key a) (key b))
    (hy : ys.Pairwise fun a b => le (key a) (key b))
    (h : ∀ k, xs.filter (fun a => key a = k) = ys.filter fun a => key a = k) : xs = ys := by
  induction xs generalizing ys with
  | nil =>
    cases ys with
    | nil => rfl
    | cons y ys => simpa using h (key y)
  | cons x xs ih =>
    cases ys with
    | nil => simpa using h (key x)
    | cons y ys =>
      obtain ⟨hxs, hxtail⟩ := List.pairwise_cons.mp hx
      obtain ⟨hys, hytail⟩ := List.pairwise_cons.mp hy
      -- Each of the two heads is somewhere in the other list.
      have hmem : ∀ a, a ∈ x :: xs ↔ a ∈ y :: ys := fun a => by
        simpa using congrArg (a ∈ ·) (h (key a))
      have hxy : le (key x) (key y) := by
        rcases List.mem_cons.mp ((hmem y).mpr List.mem_cons_self) with rfl | hin
        · exact refl _
        · exact hxs y hin
      have hyx : le (key y) (key x) := by
        rcases List.mem_cons.mp ((hmem x).mp List.mem_cons_self) with rfl | hin
        · exact refl _
        · exact hys x hin
      have hkey : key x = key y := antisymm _ _ hxy hyx
      obtain ⟨rfl, -⟩ : x = y ∧ _ := by simpa [hkey] using h (key y)
      congr 1
      refine ih hxtail hytail fun k => ?_
      have hk := h k
      by_cases hxk : key x = k
      · simpa [hxk] using hk
      · simpa [hxk] using hk

section sortByRanks
variable (ranks : SortKey → List Int) (its : List Itinerary)

theorem rankLE_trans (a b c : Itinerary)
    (hab : (compareRanks (ranks a.key) (ranks b.key)).isLE)
    (hbc : (compareRanks (ranks b.key) (ranks c.key)).isLE) :
    (compareRanks (ranks a.key) (ranks c.key)).isLE :=
  Std.TransCmp.isLE_trans hab hbc

theorem rankLE_total (a b : Itinerary) :
    ((compareRanks (ranks a.key) (ranks b.key)).isLE ||
      (compareRanks (ranks b.key) (ranks a.key)).isLE) = true := by
  have hswap : compareRanks (ranks b.key) (ranks a.key) =
      (compareRanks (ranks a.key) (ranks b.key)).swap := Std.OrientedCmp.eq_swap
  rw [hswap]
  cases compareRanks (ranks a.key) (ranks b.key) <;> rfl

@[simp] theorem mem_sortByRanks {it : Itinerary} : it ∈ sortByRanks ranks its ↔ it ∈ its :=
  List.mem_mergeSort

theorem sortByRanks_perm : (sortByRanks ranks its).Perm its := List.mergeSort_perm _ _

theorem sortByRanks_pairwise : (sortByRanks ranks its).Pairwise fun a b =>
    (compareRanks (ranks a.key) (ranks b.key)).isLE :=
  List.pairwise_mergeSort (rankLE_trans ranks) (rankLE_total ranks) its

theorem filter_sortByRanks (q : Itinerary → Bool) :
    (sortByRanks ranks its).filter q = sortByRanks ranks (its.filter q) :=
  filter_mergeSort (rankLE_trans ranks) (rankLE_total ranks) q its

/-- Where ranks tell the entries apart, nothing else decides on the order. -/
theorem sortByRanks_eq_of_perm {xs ys : List Itinerary} (h : xs.Perm ys)
    (hinj : ∀ a ∈ xs, ∀ b ∈ xs, ranks a.key = ranks b.key → a = b) :
    sortByRanks ranks xs = sortByRanks ranks ys := by
  refine mergeSort_eq_of_perm (rankLE_trans ranks) (rankLE_total ranks) h ?_
  intro a ha b hb hab hba
  exact hinj a ha b hb (Std.LawfulEqCmp.eq_of_compare (Std.OrientedCmp.isLE_antisymm hab hba))

/-- Sorted lists are the same if all ranks have the same entries in the same order. -/
theorem eq_of_filter_ranks {xs ys : List Itinerary}
    (hx : xs.Pairwise fun a b => (compareRanks (ranks a.key) (ranks b.key)).isLE)
    (hy : ys.Pairwise fun a b => (compareRanks (ranks a.key) (ranks b.key)).isLE)
    (h : ∀ r, xs.filter (fun a => ranks a.key = r) = ys.filter fun a => ranks a.key = r) :
    xs = ys :=
  eq_of_filter_key (fun it : Itinerary => ranks it.key) (fun r s => (compareRanks r s).isLE = true)
    (fun _ => Std.ReflCmp.isLE_rfl)
    (fun _ _ hrs hsr => Std.LawfulEqCmp.eq_of_compare (Std.OrientedCmp.isLE_antisymm hrs hsr))
    hx hy h

theorem sortByRanks_of_level (h : ∀ a ∈ its, ∀ b ∈ its, ranks a.key = ranks b.key) :
    sortByRanks ranks its = its := by
  refine List.mergeSort_of_pairwise (List.pairwise_iff_forall_sublist.mpr fun hab => ?_)
  have hmem := hab.subset
  rw [h _ (hmem List.mem_cons_self) _ (hmem (List.mem_cons_of_mem _ List.mem_cons_self))]
  exact Std.ReflCmp.isLE_rfl

/-- Sorting leaves no trace of an earlier sort that does not tell level entries apart. -/
theorem sortByRanks_sortByRanks {others : SortKey → List Int}
    (h : ∀ a b, ranks a = ranks b → others a = others b) :
    sortByRanks ranks (sortByRanks others its) = sortByRanks ranks its := by
  refine eq_of_filter_ranks ranks (sortByRanks_pairwise _ _) (sortByRanks_pairwise _ _) fun r => ?_
  have hlevel : ∀ a ∈ its.filter (fun a => ranks a.key = r),
      ∀ b ∈ its.filter (fun a => ranks a.key = r), ranks a.key = ranks b.key := by
    intro a ha b hb
    simp only [List.mem_filter, decide_eq_true_eq] at ha hb
    rw [ha.2, hb.2]
  rw [filter_sortByRanks, filter_sortByRanks, filter_sortByRanks,
    sortByRanks_of_level others _ fun a ha b hb => h _ _ (hlevel a ha b hb)]

/-- Sorting by insertion, which computes on closed lists. -/
theorem sortByRanks_eq_insertionSort : sortByRanks ranks its =
    its.insertionSort fun a b => (compareRanks (ranks a.key) (ranks b.key)).isLE = true :=
  mergeSort_eq_insertionSort (rankLE_trans ranks) (rankLE_total ranks) its

end sortByRanks

/-! Rides for examples, in minutes of the first weeks of 1970 -/

/-- A number of minutes in nanoseconds. -/
def nanosOfMinutes (n : Nat) : Int := if n ≤ 100000 then n * 60000000000 else 6000000000000000

theorem nanosOfMinutes_le (n : Nat) :
    0 ≤ nanosOfMinutes n ∧ nanosOfMinutes n ≤ 6000000000000000 := by
  unfold nanosOfMinutes
  split <;> omega

theorem nanosOfMinutes_mono {m n : Nat} (h : m ≤ n) : nanosOfMinutes m ≤ nanosOfMinutes n := by
  unfold nanosOfMinutes
  split <;> split <;> omega

def Instant.ofMinutes (n : Nat) : Instant :=
  ⟨ticksAt (nanosOfMinutes n), by have := nanosOfMinutes_le n; unfold ticksAt; omega⟩

def Span.ofMinutes (n : Nat) : Span :=
  ⟨nanosOfMinutes n, by have := nanosOfMinutes_le n; omega⟩

/-- A ride on one trip. -/
def Itinerary.ride (start length : Nat) : Itinerary where
  legs := [{
    travel := .transit ⟨"F", "R", by decide, by decide, by decide⟩
      ⟨"F", "T", by decide, by decide, by decide⟩
    origin := ⟨"A", none, none⟩
    destination := ⟨"B", none, none⟩
    start := .ofMinutes start
    finish := .ofMinutes (start + length)
    distance := 10000.0
    cost := .saturate 0
    start_le_finish := Instant.ticksAt_le_ticksAt_iff.mpr
      (nanosOfMinutes_mono (Nat.le_add_right start length))
    distance_isMeasure := rfl }]
  cost := .saturate 1000
  tags := []
  notices := []
  decorations := []
  legs_ne_nil := List.cons_ne_nil _ _
  legs_inOrder := List.pairwise_singleton _ _

/-- A ride that starts early and takes long. -/
def slowRide : Itinerary := .ride 480 240

/-- A ride that starts after the slow one but arrives before it. -/
def fastRide : Itinerary := .ride 540 60

/-- A ride that starts soon after the slow one and arrives last. -/
def lateRide : Itinerary := .ride 485 295

/-- A ride that arrives first of all. -/
def quickRide : Itinerary := .ride 515 25

/-- A walk all the way. -/
def stroll : Itinerary where
  legs := [{
    travel := .street .walk false
    origin := ⟨"A", none, none⟩
    destination := ⟨"B", none, none⟩
    start := .ofMinutes 550
    finish := .ofMinutes 640
    distance := 6000.0
    cost := .saturate 0
    start_le_finish := by decide
    distance_isMeasure := rfl }]
  cost := .saturate 5400
  tags := []
  notices := []
  decorations := []
  legs_ne_nil := List.cons_ne_nil _ _
  legs_inOrder := List.pairwise_singleton _ _

/-- An itinerary of one leg. -/
def Itinerary.ofLeg (l : Leg) (cost : Cost) : Itinerary where
  legs := [l]
  cost := cost
  tags := []
  notices := []
  decorations := []
  legs_ne_nil := List.cons_ne_nil _ _
  legs_inOrder := List.pairwise_singleton _ _

/-- The leg of the slow ride. -/
def slowLeg : Leg := slowRide.legs.head slowRide.legs_ne_nil

end JourneyPages
