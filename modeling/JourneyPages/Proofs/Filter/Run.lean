import JourneyPages.Filter.Stage
import JourneyPages.Proofs.Trip.Marks
import JourneyPages.Proofs.Trip.Order
import Mathlib.Data.List.Dedup

/-!
What stages leave alone. All stages but caps and decorators only tag and reorder: up to tags, a run
of them gives back the itineraries it was given, and it reports no cut.
-/
namespace JourneyPages
open Itinerary (untagged Marked Retagged)

/-! Single steps -/

/-- A step that looks at entries with their places. -/
theorem forall₂_map_zipIdx {R : Itinerary → Itinerary → Prop} {step : Itinerary × Nat → Itinerary}
    {its : List Itinerary} (h : ∀ it i, its[i]? = some it → R it (step (it, i))) :
    List.Forall₂ R its (its.zipIdx.map step) := by
  conv_lhs => rw [← List.zipIdx_map_fst 0 its]
  rw [List.forall₂_map_left_iff, List.forall₂_map_right_iff, List.forall₂_same]
  rintro ⟨it, i⟩ hmem
  exact h it i (List.mem_zipIdx_iff_getElem?.mp hmem)

theorem forall₂_rejectBy (tag : String) (verdicts : List Bool) (its : List Itinerary) :
    List.Forall₂ Marked its (rejectBy tag verdicts its) := by
  fun_induction rejectBy tag verdicts its with
  | case1 => exact .nil
  | case2 it rest hk verdicts ih => exact .cons (.reject hk tag) ih
  | case3 it rest hk verdicts ih => exact .cons (.refl it) ih
  | case4 it rest hk => exact List.forall₂_same.mpr fun it _ => .refl it
  | case5 verdicts it rest hk ih => exact .cons (.refl it) ih

theorem forall₂_reinstateOne (tags : List String) (its : List Itinerary) :
    List.Forall₂ Retagged its (reinstateOne tags its) := by
  have hsame : List.Forall₂ Retagged its its := List.forall₂_same.mpr fun it _ => .refl it
  unfold reinstateOne
  split
  · exact hsame
  · dsimp only
    split
    · exact hsame
    · refine forall₂_map_zipIdx fun it i _ => ?_
      dsimp only
      split
      · exact .reinstate it tags
      · exact .refl it

/-- Rejecting by verdicts that look at one itinerary at a time. -/
theorem rejectBy_map (tag : String) (q : Itinerary → Bool) (its : List Itinerary) :
    rejectBy tag ((its.filter Itinerary.isKept).map q) its =
      its.map fun it => if it.isKept && q it then it.reject tag else it := by
  induction its with
  | nil => simp [rejectBy]
  | cons it its ih =>
    cases hk : it.isKept with
    | false => simp [rejectBy, hk, ih]
    | true => cases hq : q it <;> simp [rejectBy, hk, hq, ih]

/-- Verdicts are on kept itineraries only. -/
theorem filter_isKept_rejectBy (tag : String) (verdicts : List Bool) (its : List Itinerary) :
    (rejectBy tag verdicts (its.filter Itinerary.isKept)).filter Itinerary.isKept =
      (rejectBy tag verdicts its).filter Itinerary.isKept := by
  fun_induction rejectBy tag verdicts its with
  | case1 => rfl
  | case2 it rest hk verdicts ih => simp [rejectBy, hk, ih]
  | case3 it rest hk verdicts ih => simp [rejectBy, hk, ih]
  | case4 it rest hk => simp [rejectBy, hk]
  | case5 verdicts it rest hk ih => simp [hk, ih]

theorem filter_isKept_rejectBy_eq_zip (tag : String) {verdicts : List Bool} {its : List Itinerary}
    (h : verdicts.length = (its.filter Itinerary.isKept).length) :
    (rejectBy tag verdicts its).filter Itinerary.isKept =
      (((its.filter Itinerary.isKept).zip verdicts).filter (!·.2)).map (·.1) := by
  fun_induction rejectBy tag verdicts its with
  | case1 => simp
  | case2 it rest hk verdicts ih => simp_all
  | case3 it rest hk verdicts ih => simp_all
  | case4 it rest hk => simp [hk] at h
  | case5 verdicts it rest hk ih => simp_all

/-- What is rejected had a verdict against it. -/
theorem mem_zip_of_rejectBy {tag : String} {verdicts : List Bool} {its : List Itinerary} {i : Nat}
    {it rejected : Itinerary} (hi : its[i]? = some it) (hkept : it.isKept)
    (hr : (rejectBy tag verdicts its)[i]? = some rejected) (hnot : rejected.isKept = false) :
    (it, true) ∈ (its.filter Itinerary.isKept).zip verdicts := by
  fun_induction rejectBy tag verdicts its generalizing i with
  | case1 => simp at hi
  | case2 front rest hk verdicts ih =>
    rw [List.filter_cons_of_pos hk, List.zip_cons_cons]
    cases i with
    | zero =>
      cases hi
      exact List.mem_cons_self
    | succ i => exact List.mem_cons_of_mem _ (ih hi hr)
  | case3 front rest hk verdicts ih =>
    rw [List.filter_cons_of_pos hk, List.zip_cons_cons]
    cases i with
    | zero =>
      cases hr
      rw [hk] at hnot
      cases hnot
    | succ i => exact List.mem_cons_of_mem _ (ih hi hr)
  | case4 front rest hk =>
    cases hi.symm.trans hr
    rw [hkept] at hnot
    cases hnot
  | case5 verdicts front rest hk ih =>
    rw [List.filter_cons_of_neg hk]
    cases i with
    | zero =>
      cases hi
      exact absurd hkept hk
    | succ i => exact ih hi hr

theorem filter_isKept_rejectBy_map (tag : String) (q : Itinerary → Bool) (its : List Itinerary) :
    (rejectBy tag ((its.filter Itinerary.isKept).map q) its).filter Itinerary.isKept =
      (its.filter Itinerary.isKept).filter fun it => !q it := by
  rw [rejectBy_map]
  induction its with
  | nil => rfl
  | cons it its ih =>
    rw [List.map_cons, List.filter_cons, List.filter_cons, ih]
    cases hk : it.isKept <;> cases hq : q it <;> simp [hk, hq]

namespace Flagger

variable {f : Flagger} (hf : ∀ its, f.verdicts its = its.map f.rejectsAlone)
include hf

theorem run_eq_map (its : List Itinerary) : f.run its =
    its.map fun it => if it.isKept && f.rejectsAlone it then it.reject f.tag else it := by
  rw [run, hf, rejectBy_map]

/-- A rule that looks at one itinerary at a time leaves the others kept. -/
theorem filter_isKept_run (its : List Itinerary) : (f.run its).filter Itinerary.isKept =
    (its.filter Itinerary.isKept).filter fun it => !f.rejectsAlone it := by
  rw [run, hf, filter_isKept_rejectBy_map]

end Flagger

/-- A count leaves what is in front and rejects what is behind. -/
theorem rejectBy_beyond (tag : String) (count start : Nat) {its : List Itinerary}
    (h : ∀ it ∈ its, it.isKept) :
    rejectBy tag ((its.zipIdx start).map fun x => decide (count ≤ x.2)) its =
      its.take (count - start) ++ (its.drop (count - start)).map (·.reject tag) := by
  induction its generalizing start with
  | nil => simp [rejectBy]
  | cons it rest ih =>
    obtain ⟨hit, hrest⟩ := List.forall_mem_cons.mp h
    have hrest := ih (start + 1) hrest
    rw [List.zipIdx_cons, List.map_cons]
    by_cases hbeyond : count ≤ start
    · have hnone : count - start = 0 := by omega
      have hnone' : count - (start + 1) = 0 := by omega
      rw [hnone'] at hrest
      simpa [rejectBy, hit, hbeyond, hnone] using hrest
    · have hnext : count - start = count - (start + 1) + 1 := by omega
      simpa [rejectBy, hit, hbeyond, hnext] using hrest

namespace Flagger

theorem run_beyondCount (tag : String) (count : Nat) {its : List Itinerary}
    (h : ∀ it ∈ its, it.isKept) : (beyondCount tag count).run its =
      its.take count ++ (its.drop count).map (·.reject tag) := by
  rw [run, List.filter_eq_self.mpr h]
  exact rejectBy_beyond tag count 0 h

/-- A count keeps the first of those that are kept. -/
theorem filter_isKept_run_beyondCount (tag : String) (count : Nat) (its : List Itinerary) :
    ((beyondCount tag count).run its).filter Itinerary.isKept =
      (its.filter Itinerary.isKept).take count := by
  have hkept : ∀ it ∈ its.filter Itinerary.isKept, it.isKept := fun _ => List.of_mem_filter
  have hall := run_beyondCount tag count hkept
  rw [run, List.filter_eq_self.mpr hkept] at hall
  rw [run, ← filter_isKept_rejectBy]
  refine (congrArg (List.filter Itinerary.isKept) hall).trans ?_
  have hfront : ∀ it ∈ (its.filter Itinerary.isKept).take count, it.isKept :=
    fun it hit => hkept it (List.mem_of_mem_take hit)
  rw [List.filter_append, List.filter_eq_self.mpr hfront, List.append_right_eq_self,
    List.filter_eq_nil_iff, List.forall_mem_map]
  simp

end Flagger

/-- Whatever is on the near side of one cut is on that of a cut further on. -/
theorem alreadyShown_of_not_alreadyShown {o : SortOrder} {side : ListEnd} {cut : SortKey}
    {it further : Itinerary} (hit : (Flagger.alreadyShown o side cut).rejectsAlone it)
    (hfurther : (Flagger.alreadyShown o side cut).rejectsAlone further = false) :
    (Flagger.alreadyShown o side further.key).rejectsAlone it := by
  cases side with
  | head =>
    have hcut := SortOrder.isLE_compare_of_not hfurther
    exact Std.TransCmp.isLE_trans (b := cut) hit hcut
  | tail =>
    have hcut : (o.compare cut it.key).isLE := SortOrder.isGE_compare_iff.mp hit
    have hnot : (o.compare cut further.key).isLE = false := by
      rw [← Bool.not_eq_true, ← SortOrder.isGE_compare_iff, Bool.not_eq_true]
      exact hfurther
    have hle := SortOrder.isLE_compare_of_not hnot
    exact SortOrder.isGE_compare_iff.mpr (Std.TransCmp.isLE_trans hle hcut)

/-! Classes -/

section classes
variable {α κ : Type} [DecidableEq κ] {key : α → Option κ}

theorem classes_cons_of_none {x : α} (h : key x = none) (xs : List α) :
    classes key (x :: xs) = [x] :: classes key xs := by
  rw [classes, h]

theorem classes_cons_of_some {x : α} {k : κ} (h : key x = some k) (xs : List α) :
    classes key (x :: xs) = (x :: xs.filter fun y => key y = some k) ::
      classes key (xs.filter fun y => key y ≠ some k) := by
  rw [classes, h]

/-- Induction along the classes of a list: one entry without a key, or a whole class, at a time. -/
theorem classes_induction (key : α → Option κ) {motive : List α → Prop} (nil : motive [])
    (none : ∀ x xs, key x = .none → motive xs → motive (x :: xs))
    (some : ∀ x xs k, key x = .some k → motive (xs.filter fun y => key y ≠ .some k) →
      motive (x :: xs)) (xs : List α) : motive xs := by
  induction hn : xs.length using Nat.strong_induction_on generalizing xs with
  | _ n ih =>
    cases xs with
    | nil => exact nil
    | cons x xs =>
      subst hn
      cases hx : key x with
      | none => exact none x xs hx (ih _ (by simp) xs rfl)
      | some k =>
        have hlen := List.length_filter_le (fun y => decide (key y ≠ .some k)) xs
        exact some x xs k hx (ih _ (Nat.lt_succ_of_le hlen) _ rfl)

theorem classes_map {β : Type} (f : β → α) (xs : List β) :
    classes key (xs.map f) = (classes (key ∘ f) xs).map (List.map f) := by
  induction xs using classes_induction (key ∘ f) with
  | nil => simp [classes]
  | none x xs hx ih =>
    have hfx : key (f x) = none := hx
    rw [List.map_cons, classes_cons_of_none hfx, classes_cons_of_none hx, ih]
    rfl
  | some x xs k hx ih =>
    have hfx : key (f x) = some k := hx
    rw [List.map_cons, classes_cons_of_some hfx, classes_cons_of_some hx, List.filter_map,
      List.filter_map, List.map_cons, List.map_cons]
    exact congrArg _ ih

/-- Classes are made of the whole list. -/
theorem flatten_classes_perm (key : α → Option κ) (xs : List α) :
    (classes key xs).flatten.Perm xs := by
  induction xs using classes_induction key with
  | nil =>
    rw [classes]
    exact .refl _
  | none x xs hx ih =>
    rw [classes_cons_of_none hx]
    exact ih.cons x
  | some x xs k hx ih =>
    have hsplit := List.filter_append_perm (fun y => decide (key y = .some k)) xs
    rw [classes_cons_of_some hx, List.flatten_cons, List.cons_append]
    refine List.Perm.trans (List.Perm.cons x (List.Perm.append_left _ ?_)) (hsplit.cons x)
    simpa using ih

/-- One by one the entries without a key, and for each key the entries that have it. -/
theorem classes_perm {xs : List α} {ks : List κ} (hnodup : ks.Nodup)
    (hks : ∀ k, k ∈ ks ↔ ∃ x ∈ xs, key x = some k) :
    (classes key xs).Perm ((xs.filter fun x => key x = none).map ([·]) ++
      ks.map fun k => xs.filter fun x => key x = some k) := by
  induction xs using classes_induction key generalizing ks with
  | nil =>
    have hnone : ks = [] := List.eq_nil_iff_forall_not_mem.mpr (by simp [hks])
    rw [hnone, classes]
    exact .refl _
  | none x xs hx ih =>
    have hrest := ih hnodup (by simpa [hx] using hks)
    rw [classes_cons_of_none hx]
    simpa [hx] using hrest
  | some x xs k hx ih =>
    have hrest := ih (hnodup.erase k) (by
      intro l
      rw [hnodup.mem_erase_iff, hks]
      grind)
    have hnone : (xs.filter fun y => key y ≠ some k).filter (fun y => key y = none) =
        (x :: xs).filter fun y => key y = none := by
      rw [List.filter_filter, List.filter_cons_of_neg (by simp [hx])]
      apply List.filter_congr
      grind
    have hsome : ∀ l ∈ ks.erase k,
        (xs.filter fun y => key y ≠ some k).filter (fun y => key y = some l) =
          (x :: xs).filter fun y => key y = some l := by
      intro l hl
      have hne : l ≠ k := (hnodup.mem_erase_iff.mp hl).1
      rw [List.filter_filter, List.filter_cons_of_neg (by simp [hx, hne.symm])]
      apply List.filter_congr
      grind
    -- The class in front takes the place that its key has among the others.
    have hk : k ∈ ks := (hks k).mpr ⟨x, List.mem_cons_self, hx⟩
    rw [hnone, List.map_congr_left hsome] at hrest
    rw [classes_cons_of_some hx, ← List.filter_cons_of_pos (by simp [hx])]
    refine (hrest.cons _).trans (List.perm_middle.symm.trans (List.Perm.append_left _ ?_))
    exact ((List.perm_cons_erase hk).map fun l => (x :: xs).filter fun y => key y = some l).symm

/-- What is made of each class comes to the same for every order of the list, if it does for the
classes. -/
theorem flatMap_classes_perm {β : Type} {f : List α → List β} {xs ys : List α} (h : xs.Perm ys)
    (hf : ∀ k, (f (xs.filter fun x => key x = some k)).Perm
      (f (ys.filter fun x => key x = some k))) :
    ((classes key xs).flatMap f).Perm ((classes key ys).flatMap f) := by
  -- The same keys list the classes of both.
  let ks := (xs.filterMap key).dedup
  have hxs : ∀ k, k ∈ ks ↔ ∃ x ∈ xs, key x = some k := by simp [ks]
  have hys : ∀ k, k ∈ ks ↔ ∃ x ∈ ys, key x = some k := by simpa only [h.mem_iff] using hxs
  have hnodup : ks.Nodup := List.nodup_dedup _
  have hsingles : ((xs.filter fun x => key x = none).map ([·])).Perm
      ((ys.filter fun x => key x = none).map ([·])) := (h.filter _).map _
  refine ((classes_perm hnodup hxs).flatMap_right f).trans
    (.trans ?_ ((classes_perm hnodup hys).flatMap_right f).symm)
  rw [List.flatMap_append, List.flatMap_append, List.flatMap_map (l := ks),
    List.flatMap_map (l := ks)]
  exact (hsingles.flatMap_right f).append (List.Perm.flatMap_left ks fun k _ => hf k)

/-- A class is one entry without a key, or all entries that share the key of one. -/
theorem eq_of_mem_classes {xs c : List α} (h : c ∈ classes key xs) :
    (∃ x ∈ xs, key x = none ∧ c = [x]) ∨
      ∃ x ∈ xs, ∃ k, key x = some k ∧ c = xs.filter fun y => key y = some k := by
  have hperm := classes_perm (List.nodup_dedup (xs.filterMap key)) fun k => by
    rw [List.mem_dedup, List.mem_filterMap]
  rcases List.mem_append.mp (hperm.mem_iff.mp h) with hc | hc
  · obtain ⟨x, hx, rfl⟩ := List.mem_map.mp hc
    obtain ⟨hmem, hnone⟩ := List.mem_filter.mp hx
    exact .inl ⟨x, hmem, of_decide_eq_true hnone, rfl⟩
  · obtain ⟨k, hk, rfl⟩ := List.mem_map.mp hc
    obtain ⟨x, hmem, hkey⟩ := List.mem_filterMap.mp (List.mem_dedup.mp hk)
    exact .inr ⟨x, hmem, k, hkey, rfl⟩

/-- What is made of the class of a key is all that has the key in what is made of the classes. -/
theorem filter_flatMap_classes {f : List α → List α}
    (hf : ∀ c, ∀ y ∈ f c, ∃ x ∈ c, key y = key x) (xs : List α) (k : κ) :
    ((classes key xs).flatMap f).filter (fun y => key y = some k) =
      f (xs.filter fun x => key x = some k) := by
  have hnil : f [] = [] := by
    refine List.eq_nil_iff_forall_not_mem.mpr fun y hy => ?_
    obtain ⟨x, hx, -⟩ := hf [] y hy
    cases hx
  -- Only one class has the key, if there is one that does.
  have hother : ∀ c : List α, (∀ x ∈ c, key x ≠ some k) → (f c).filter (key · = some k) = [] := by
    intro c hc
    refine List.filter_eq_nil_iff.mpr fun y hy => ?_
    obtain ⟨x, hx, hyx⟩ := hf c y hy
    simpa [hyx] using hc x hx
  induction xs using classes_induction key with
  | nil => simp [classes, hnil]
  | none x xs hx ih =>
    rw [classes_cons_of_none hx, List.flatMap_cons, List.filter_append, ih,
      List.filter_cons_of_neg (by simp [hx]), hother [x] (by simp [hx]), List.nil_append]
  | some x xs l hx ih =>
    rw [classes_cons_of_some hx, List.flatMap_cons, List.filter_append, ih, List.filter_filter]
    by_cases hlk : l = k
    · subst hlk
      have hall : (f (x :: xs.filter fun y => key y = some l)).filter (key · = some l) =
          f (x :: xs.filter fun y => key y = some l) := by
        refine List.filter_eq_self.mpr fun y hy => ?_
        obtain ⟨z, hz, hyz⟩ := hf _ y hy
        rcases List.mem_cons.mp hz with rfl | hz
        · simp [hyz, hx]
        · rw [hyz]
          exact (List.mem_filter.mp hz).2
      have hrest : xs.filter (fun y => decide (key y = some l) && decide (key y ≠ some l)) = [] :=
        List.filter_eq_nil_iff.mpr fun y _ => by simp
      rw [hall, hrest, hnil, List.append_nil, List.filter_cons_of_pos (by simp [hx])]
    · rw [hother _ (by simp; grind), List.nil_append, List.filter_cons_of_neg (by simp [hx, hlk])]
      congr 1
      exact List.filter_congr fun y _ => by grind

end classes

namespace Stage

/-- A run over the stages in front goes on with those behind. -/
theorem runAll_append {front : List Stage} {p q : Progress} (h : runAll front p = .ok q)
    (back : List Stage) : runAll (front ++ back) p = runAll back q := by
  induction front generalizing p with
  | nil =>
    cases h
    rfl
  | cons s front ih =>
    simp only [List.cons_append, runAll, bind, Except.bind] at h ⊢
    cases hs : s.run p with
    | error e => simp [hs] at h
    | ok mid =>
      simp only [hs] at h
      exact ih h

/-- A stage that only tags and reorders, also within groups. -/
inductive Quiet : Stage → Prop
  | reject (flagger : Flagger) : Quiet (.reject flagger)
  | sort (ranking : Ranking) : Quiet (.sort ranking)
  | group {name : String} {grouping : Grouping} {nested : List Stage}
      (quiet : ∀ s ∈ nested, Quiet s) : Quiet (.group name grouping nested)
  | reinstate (tags : List String) : Quiet (.reinstate tags)

mutual

/-- What a quiet stage makes of a list. -/
def outcome : Stage → List Itinerary → List Itinerary
  | reject flagger, its => flagger.run its
  | sort ranking, its => sortByRanks ranking.ranks its
  | group _ grouping nested, its =>
    (classes grouping.key? (its.filter Itinerary.isKept)).flatMap
      (fun group => outcomeAll nested group) ++ its.filter (!·.isKept)
  | reinstate tags, its => reinstateOne tags its
  | cap .., its => its
  | decorate _, its => its

def outcomeAll : List Stage → List Itinerary → List Itinerary
  | [], its => its
  | s :: ss, its => outcomeAll ss (outcome s its)

end

/-- If every stage makes of a list what it should, so does a run of them. -/
theorem runAll_eq_outcomeAll {stages : List Stage}
    (h : ∀ s ∈ stages, ∀ p, s.run p = .ok ⟨s.outcome p.itineraries, p.cap⟩) (p : Progress) :
    runAll stages p = .ok ⟨outcomeAll stages p.itineraries, p.cap⟩ := by
  induction stages generalizing p with
  | nil => rfl
  | cons s stages ih =>
    simp only [runAll, h s List.mem_cons_self p, bind, Except.bind]
    exact ih (fun t ht => h t (List.mem_cons_of_mem s ht)) _

/-- The classes of a grouping come out one behind the other. -/
theorem foldlM_groups {run : Progress → Except FilterError Progress}
    {out : List Itinerary → List Itinerary}
    (h : ∀ p, run p = .ok ⟨out p.itineraries, p.cap⟩)
    (groups : List (List Itinerary)) (front : List Itinerary) (cap : Option CapReport) :
    groups.foldlM (fun done group => do
        let reduced ← run ⟨group, done.cap⟩
        pure ⟨done.itineraries ++ reduced.itineraries, reduced.cap⟩)
      (⟨front, cap⟩ : Progress) =
      (.ok ⟨front ++ groups.flatMap out, cap⟩ : Except FilterError Progress) := by
  induction groups generalizing front with
  | nil => simp [pure, Except.pure]
  | cons group groups ih =>
    rw [List.foldlM_cons, h, List.flatMap_cons, ← List.append_assoc]
    exact ih (front ++ out group)

/-- A quiet stage is a function on lists: it never fails, and it reports no cut. -/
theorem Quiet.run_eq {s : Stage} (h : s.Quiet) (p : Progress) :
    s.run p = .ok ⟨s.outcome p.itineraries, p.cap⟩ := by
  induction h generalizing p with
  | reject flagger => rfl
  | sort ranking => rfl
  | @group name grouping nested _ ih =>
    have hfold := foldlM_groups (runAll_eq_outcomeAll ih)
      (classes grouping.key? (p.itineraries.filter Itinerary.isKept)) [] p.cap
    simp only [run, bind, Except.bind] at hfold ⊢
    rw [hfold]
    rfl
  | reinstate tags => rfl

theorem runAll_eq_of_quiet {stages : List Stage} (h : ∀ s ∈ stages, s.Quiet) (p : Progress) :
    runAll stages p = .ok ⟨outcomeAll stages p.itineraries, p.cap⟩ :=
  runAll_eq_outcomeAll (fun s hs => (h s hs).run_eq) p

theorem outcomeAll_append (front back : List Stage) (its : List Itinerary) :
    outcomeAll (front ++ back) its = outcomeAll back (outcomeAll front its) := by
  induction front generalizing its with
  | nil => rfl
  | cons s front ih => exact ih (s.outcome its)

theorem filter_isKept_outcome_group (name : String) (grouping : Grouping) (nested : List Stage)
    (its : List Itinerary) : ((Stage.group name grouping nested).outcome its).filter
      Itinerary.isKept = (classes grouping.key? (its.filter Itinerary.isKept)).flatMap
        fun c => (outcomeAll nested c).filter Itinerary.isKept := by
  simp [outcome, List.filter_append, List.filter_flatMap]

/-- A stage for a rule puts one tag at most on what was kept. -/
theorem corresponds_reject (flagger : Flagger) (its : List Itinerary) :
    Corresponds Marked its ((reject flagger).outcome its) :=
  .of_forall₂ (forall₂_rejectBy _ _ its)

theorem corresponds_sort (ranking : Ranking) (its : List Itinerary) :
    Corresponds Marked its ((sort ranking).outcome its) :=
  .of_perm Marked.refl (sortByRanks_perm ranking.ranks its).symm

/-- Rejected itineraries go round a grouping. What goes into it is kept, and may be rejected and
reinstated there. -/
theorem corresponds_group {nested : List Stage}
    (h : ∀ group, Corresponds Retagged group (outcomeAll nested group)) (name : String)
    (grouping : Grouping) (its : List Itinerary) :
    Corresponds Marked its ((Stage.group name grouping nested).outcome its) := by
  have hsplit := (List.filter_append_perm Itinerary.isKept its).symm
  have hgroups := (flatten_classes_perm grouping.key? (its.filter Itinerary.isKept)).symm
  rw [outcome]
  refine .perm_left hsplit (.append ?_ (.of_perm Marked.refl (.refl _)))
  refine .imp_of_mem ?_ (.perm_left hgroups (.flatMap h _))
  intro it hit after hafter
  exact hafter.marked (List.of_mem_filter hit)

theorem corresponds_outcomeAll {stages : List Stage}
    (h : ∀ s ∈ stages, ∀ its, Corresponds Retagged its (s.outcome its)) (its : List Itinerary) :
    Corresponds Retagged its (outcomeAll stages its) := by
  induction stages generalizing its with
  | nil => exact .of_perm Retagged.refl (.refl its)
  | cons s stages ih =>
    have hrest := ih (fun t ht => h t (List.mem_cons_of_mem s ht)) (s.outcome its)
    exact (h s List.mem_cons_self its).trans Retagged.trans hrest

theorem Quiet.corresponds {s : Stage} (h : s.Quiet) (its : List Itinerary) :
    Corresponds Retagged its (s.outcome its) := by
  induction h generalizing its with
  | reject flagger => exact (corresponds_reject flagger its).imp Marked.retagged
  | sort ranking => exact (corresponds_sort ranking its).imp Marked.retagged
  | @group name grouping nested _ ih =>
    exact (corresponds_group (corresponds_outcomeAll ih) name grouping its).imp Marked.retagged
  | reinstate tags => exact .of_forall₂ (forall₂_reinstateOne tags its)

/-- A run of quiet stages gives back what it was given up to order and tags. -/
theorem map_untagged_outcomeAll_perm {stages : List Stage} (h : ∀ s ∈ stages, s.Quiet)
    (its : List Itinerary) : ((outcomeAll stages its).map untagged).Perm (its.map untagged) :=
  (corresponds_outcomeAll (fun s hs => (h s hs).corresponds) its).map_perm Retagged.untagged

/-- A step ends well, reports no cut, and gives back what it was given up to order and tags. -/
def Preserves (step : Progress → Except FilterError Progress) : Prop :=
  ∀ p, ∃ out, step p = .ok ⟨out, p.cap⟩ ∧
    (out.map untagged).Perm (p.itineraries.map untagged)

theorem Quiet.preserves {s : Stage} (h : s.Quiet) : Preserves s.run :=
  fun p => ⟨_, h.run_eq p, (h.corresponds p.itineraries).map_perm Retagged.untagged⟩

/-- A run of quiet stages. -/
theorem runAll_of_quiet {stages : List Stage} (h : ∀ s ∈ stages, s.Quiet) :
    Preserves (runAll stages) := fun p =>
  ⟨_, runAll_eq_of_quiet h p, map_untagged_outcomeAll_perm h p.itineraries⟩

/-- A stage that changes nothing in itineraries but tags and order, if it ends well. -/
def Retains (s : Stage) : Prop :=
  ∀ p q, s.run p = .ok q → (q.itineraries.map untagged).Perm (p.itineraries.map untagged)

theorem Quiet.retains {s : Stage} (h : s.Quiet) : s.Retains := by
  intro p q hq
  obtain ⟨out, hout, hperm⟩ := h.preserves p
  rw [hout] at hq
  cases hq
  exact hperm

theorem perm_of_runAll {stages : List Stage} (h : ∀ s ∈ stages, s.Retains) {p q : Progress}
    (hrun : runAll stages p = .ok q) :
    (q.itineraries.map untagged).Perm (p.itineraries.map untagged) := by
  induction stages generalizing p with
  | nil =>
    cases hrun
    exact .refl _
  | cons s stages ih =>
    simp only [runAll, bind, Except.bind] at hrun
    cases hs : s.run p with
    | error e => simp [hs] at hrun
    | ok mid =>
      simp only [hs] at hrun
      have hmid := h s List.mem_cons_self p mid hs
      exact (ih (fun t ht => h t (List.mem_cons_of_mem s ht)) hrun).trans hmid

/-- In a run of the stages on a list, `it` comes to the stage `s` kept and leaves it rejected. -/
def RejectsIn (stages : List Stage) (its : List Itinerary) (s : Stage) (it : Itinerary) : Prop :=
  ∃ front back before after, stages = front ++ s :: back ∧
    runAll front ⟨its, none⟩ = .ok before ∧ s.run before = .ok after ∧
    ∃ (i : Nat) (rejected : Itinerary), before.itineraries[i]? = some it ∧ it.isKept ∧
      after.itineraries[i]? = some rejected ∧ rejected.isKept = false

/-- What is rejected in a run comes from the list. -/
theorem RejectsIn.exists_untagged {stages : List Stage} {its : List Itinerary} {s : Stage}
    {it : Itinerary} (hr : RejectsIn stages its s it) (h : ∀ s ∈ stages, s.Retains) :
    ∃ found ∈ its, found.untagged = it := by
  obtain ⟨front, back, before, after, rfl, hbefore, -, i, -, hi, hkept, -⟩ := hr
  have hperm := perm_of_runAll (fun s hs => h s (List.mem_append_left _ hs)) hbefore
  have huntagged : it ∈ before.itineraries.map untagged :=
    List.mem_map.mpr ⟨it, List.mem_of_getElem? hi, Itinerary.untagged_of_isKept hkept⟩
  exact List.mem_map.mp (hperm.mem_iff.mp huntagged)

/-- A rule that looks at one itinerary at a time rejects those it is against. -/
theorem RejectsIn.rejectsAlone {f : Flagger} {stages : List Stage} {its : List Itinerary}
    {it : Itinerary} (hr : RejectsIn stages its (.reject f) it)
    (hf : ∀ its, f.verdicts its = its.map f.rejectsAlone) : f.rejectsAlone it := by
  obtain ⟨front, back, before, after, -, -, hafter, i, rejected, hi, hkept, hr, hnot⟩ := hr
  cases hafter
  simp only [Flagger.run_eq_map hf, List.getElem?_map, hi, Option.map_some,
    Option.some.injEq] at hr
  by_contra halone
  rw [if_neg (by simp [halone])] at hr
  rw [← hr, hkept] at hnot
  cases hnot

end Stage
end JourneyPages
