import JourneyPages.Proofs.Filter.Chain
import Mathlib.Data.List.GetD

/-!
Marking and removing. A run only marks what it rejects and sweeps once at the end. It might as well
drop what is rejected after every stage: each stage passes over the rejected itineraries, whether
it judges, sorts, caps or groups the others.
-/
namespace JourneyPages

/-- The progress without what is rejected so far. -/
def Progress.swept (p : Progress) : Progress :=
  { p with itineraries := p.itineraries.filter Itinerary.isKept }

namespace Cap
variable {max : Nat} {e : ListEnd} {o : SortOrder} {its : List Itinerary}

/-- What a cap leaves of itineraries with their places, in the order of the list. -/
def leaves (max : Nat) (e : ListEnd) (o : SortOrder) (xs : List (Itinerary × Nat)) :
    List (Itinerary × Nat) :=
  let dropped := (crop max e (xs.mergeSort fun a b => (o.compare a.1.key b.1.key).isLE)).1
  xs.filter fun x => x.2 ∉ dropped.map Prod.snd

/-- Other places make no difference, as long as they tell the itineraries apart. -/
theorem leaves_map {xs : List (Itinerary × Nat)} {place : Nat → Nat}
    (hplace : ∀ i ∈ xs.map Prod.snd, ∀ j ∈ xs.map Prod.snd, place i = place j → i = j) :
    leaves max e o (xs.map (Prod.map id place)) =
      (leaves max e o xs).map (Prod.map id place) := by
  unfold leaves
  have hsort := List.map_mergeSort (f := Prod.map id place) (l := xs)
    (r := fun a b : Itinerary × Nat => (o.compare a.1.key b.1.key).isLE)
    (s := fun a b : Itinerary × Nat => (o.compare a.1.key b.1.key).isLE) fun _ _ _ _ => rfl
  have hdropped := @mem_of_mem_crop_fst _ max e
    (xs.mergeSort fun a b => (o.compare a.1.key b.1.key).isLE)
  rw [← hsort, crop_map, List.filter_map]
  generalize (crop max e (xs.mergeSort fun a b => (o.compare a.1.key b.1.key).isLE)).1 = dropped
    at hdropped ⊢
  refine congrArg (List.map _) (List.filter_congr ?_)
  intro x hx
  have hmoved : (dropped.map (Prod.map id place)).map Prod.snd =
      (dropped.map Prod.snd).map place := by simp
  have hiff : place x.2 ∈ (dropped.map Prod.snd).map place ↔ x.2 ∈ dropped.map Prod.snd := by
    constructor
    · intro hmem
      obtain ⟨i, hi, heq⟩ := List.mem_map.mp hmem
      obtain ⟨y, hy, rfl⟩ := List.mem_map.mp hi
      have hyxs := List.mem_mergeSort.mp (hdropped hy)
      rwa [← hplace _ (List.mem_map_of_mem hyxs) _ (List.mem_map_of_mem hx) heq]
    · exact List.mem_map_of_mem
  simp only [Function.comp_apply, Prod.map_snd, hmoved, hiff]

/-- Entries numbered anew, and the old numbers looked up. -/
theorem map_getD_zipIdx {α : Type} (xs : List (α × Nat)) :
    (xs.map Prod.fst).zipIdx.map (Prod.map id fun i => (xs.map Prod.snd).getD i 0) = xs := by
  apply List.ext_getElem
  · simp
  · intro i h₁ h₂
    simp [h₂]

/-- Only the itineraries with their order count, not how their places are numbered. -/
theorem map_fst_leaves {xs : List (Itinerary × Nat)} (h : (xs.map Prod.snd).Nodup) :
    (leaves max e o xs).map Prod.fst =
      (leaves max e o (xs.map Prod.fst).zipIdx).map Prod.fst := by
  -- The entries are their itineraries numbered anew, with the old numbers looked up.
  conv_lhs => rw [← map_getD_zipIdx xs]
  rw [leaves_map, List.map_map]
  · rfl
  · intro i hi j hj heq
    simp only [List.zipIdx_map_snd, List.length_map, List.mem_range'_1, Nat.zero_add] at hi hj
    rw [List.getD_eq_getElem _ _ (by simpa using hi.2),
      List.getD_eq_getElem _ _ (by simpa using hj.2)] at heq
    exact (h.getElem_inj_iff).mp heq

theorem filter_isKept_run (max : Nat) (e : ListEnd) (o : SortOrder) (its : List Itinerary) :
    (run max e o its).1.filter Itinerary.isKept =
      (leaves max e o (its.zipIdx.filter (·.1.isKept))).map Prod.fst := by
  unfold run leaves
  dsimp only
  split
  case isTrue h =>
    have hcrop := crop_of_length_le e h
    rw [candidates] at hcrop
    rw [hcrop, ← map_fst_filter_zipIdx]
    simp
  case isFalse => exact filter_isKept_reject _ _

/-- A cap leaves the same kept itineraries whether or not rejected ones stand among them. -/
theorem filter_isKept_run_filter (max : Nat) (e : ListEnd) (o : SortOrder) (its : List Itinerary) :
    (run max e o (its.filter Itinerary.isKept)).1.filter Itinerary.isKept =
      (run max e o its).1.filter Itinerary.isKept := by
  have hall : (its.filter Itinerary.isKept).zipIdx.filter (·.1.isKept) =
      (its.filter Itinerary.isKept).zipIdx := by
    apply List.filter_eq_self.mpr
    intro x hx
    exact List.of_mem_filter (List.fst_mem_of_mem_zipIdx hx)
  rw [filter_isKept_run, filter_isKept_run, hall, map_fst_leaves (nodup_map_snd_filter _ its),
    map_fst_filter_zipIdx]

end Cap

namespace Stage

/-- What is rejected already makes no difference to a stage. -/
def IgnoresRejected (s : Stage) : Prop :=
  ∀ p, (s.run p.swept).map Progress.swept = (s.run p).map Progress.swept

theorem ignoresRejected_reject (flagger : Flagger) : (reject flagger).IgnoresRejected := by
  intro p
  have hkept : (flagger.run (p.itineraries.filter Itinerary.isKept)).filter Itinerary.isKept =
      (flagger.run p.itineraries).filter Itinerary.isKept := by
    rw [Flagger.run, Flagger.run, List.filter_filter]
    simp only [Bool.and_self]
    exact filter_isKept_rejectBy _ _ _
  simp only [run, Except.map, Progress.swept, hkept]

theorem ignoresRejected_sort (ranking : Ranking) : (sort ranking).IgnoresRejected := by
  intro p
  simp only [run, Except.map, Progress.swept, filter_sortByRanks, List.filter_filter,
    Bool.and_self]

theorem ignoresRejected_cap (max : Nat) (e : ListEnd) (o : SortOrder) :
    (cap max e o).IgnoresRejected := by
  intro p
  simp only [run, Except.map, Progress.swept, Cap.filter_isKept_run_filter, Cap.run_snd,
    List.filter_filter, Bool.and_self]

theorem ignoresRejected_group (name : String) (grouping : Grouping) (nested : List Stage) :
    (group name grouping nested).IgnoresRejected := by
  intro p
  simp only [run, Progress.swept, List.filter_filter, Bool.and_self, Bool.not_and_self,
    bind, Except.bind, pure, Except.pure]
  generalize List.foldlM (m := Except FilterError) _ _ _ = done
  cases done with
  | error e => rfl
  | ok done => simp [Except.map, Progress.swept, List.filter_append]

/-- A run that drops what is rejected after each stage. -/
def runSweeping : List Stage → Progress → Except FilterError Progress
  | [], p => .ok p
  | s :: ss, p => do runSweeping ss (← s.run p).swept

theorem map_swept_runAll {stages : List Stage} (h : ∀ s ∈ stages, s.IgnoresRejected)
    (p : Progress) : (runAll stages p).map Progress.swept = runSweeping stages p.swept := by
  induction stages generalizing p with
  | nil => rfl
  | cons s stages ih =>
    have hrest := ih fun t ht => h t (List.mem_cons_of_mem s ht)
    calc (runAll (s :: stages) p).map Progress.swept
        = (s.run p).map Progress.swept >>= runSweeping stages := by
          simp only [runAll, bind, Except.bind]
          cases s.run p with
          | error e => rfl
          | ok mid => exact hrest mid
      _ = (s.run p.swept).map Progress.swept >>= runSweeping stages := by
          rw [h s List.mem_cons_self p]
      _ = runSweeping (s :: stages) p.swept := by
          simp only [runSweeping, bind, Except.bind]
          cases s.run p.swept <;> rfl

end Stage

/-- The run of a chain that drops what is rejected at once: the itineraries that come rejected, and
then after each stage those that it rejects. -/
def Chain.runSweeping (c : Chain) (its : List Itinerary) : Except FilterError ChainResult := do
  let p ← Stage.runSweeping (c.stages.map (·.2)) ⟨its.filter Itinerary.isKept, none⟩
  pure ⟨p.itineraries, p.cap⟩

namespace Plan
variable {p : Plan}

theorem ignoresRejected_of_mem_chain (h : p.decorators = []) :
    ∀ s ∈ p.chain.stages.map (·.2), s.IgnoresRejected :=
  forall_mem_chain (by simp [h]) Stage.ignoresRejected_reject Stage.ignoresRejected_sort
    (fun _ => Stage.ignoresRejected_group _ _ _) (fun _ => Stage.ignoresRejected_group _ _ _)
    Stage.ignoresRejected_cap

/-- Without decorators and debugging, a run that marks what it rejects and sweeps at the end has
the result of one that drops it at once. -/
theorem run_eq_runSweeping (h : p.decorators = []) (debug : p.preferences.debug = .off)
    (its : List Itinerary) :
    ∃ result, p.chain.run its = .ok result ∧ p.chain.runSweeping its = .ok result := by
  have hrun := (runAll_chain h its).1
  have hsweep := Stage.map_swept_runAll (ignoresRejected_of_mem_chain h) ⟨its, none⟩
  rw [hrun] at hsweep
  refine ⟨_, run_chain h its, ?_⟩
  simp only [Progress.swept, Except.map] at hsweep
  simp only [Chain.runSweeping, sweep_of_off debug, ← hsweep, bind, Except.bind, pure, Except.pure]

/-- A plan with all the usual rules that shows the later two of its rides. -/
def evening : Plan := { ofPreferences .standard .streetAndArrival with
  max := 2, croppedEnd := .head, window := some (.ofMinutes 480, .ofMinutes 120) }

theorem run_eq_runSweeping_evening : evening.decorators = [] ∧ evening.preferences.debug = .off ∧
    ∃ result,
      evening.chain.run [slowRide, fastRide.reject "seen", lateRide, quickRide] = .ok result ∧
      evening.chain.runSweeping [slowRide, fastRide.reject "seen", lateRide, quickRide] =
        .ok result :=
  ⟨rfl, rfl, run_eq_runSweeping rfl rfl _⟩

end Plan
end JourneyPages
