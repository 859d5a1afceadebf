import JourneyPages.Proofs.Filter.Chain
import Mathlib.Data.List.Pairwise

/-!
Settings in any order. A setting decides one thing about a plan, or adds a similarity limit or a
decorator to it. What is decided once may be decided at any time, similarity limits are sorted by
their shares, and the phases sort the stages of decorators: the chain stays the same as long as the
decorators of each phase keep their order.
-/
namespace JourneyPages

/-- What there is to decide about a plan. -/
inductive Decision
  | max
  | sameRoutesAndStops
  | sameEndTrip
  | leastBicycleDistance
  | transitCost
  | streetCost
  | dearerThanStreet
  | dearerThanWalk
  | walkOnly
  | rentedBicycleRatio
  | drivingRatio
  | window
  | shown
  | debug
  deriving DecidableEq

namespace Setting

/-- What a setting decides, if it does not add to a list. -/
def decision? : Setting → Option Decision
  | .max .. => some .max
  | .similarity _ => none
  | .sameRoutesAndStops _ => some .sameRoutesAndStops
  | .sameEndTrip _ => some .sameEndTrip
  | .leastBicycleDistance _ => some .leastBicycleDistance
  | .transitCost _ => some .transitCost
  | .streetCost _ => some .streetCost
  | .dearerThanStreet _ => some .dearerThanStreet
  | .dearerThanWalk _ => some .dearerThanWalk
  | .walkOnly _ => some .walkOnly
  | .rentedBicycleRatio _ => some .rentedBicycleRatio
  | .drivingRatio _ => some .drivingRatio
  | .window .. => some .window
  | .shown .. => some .shown
  | .decorator .. => none
  | .debug _ => some .debug

/-- The similarity limit that a setting adds. -/
def similarity? : Setting → Option SimilarityLimit
  | .similarity limit => some limit
  | _ => none

/-- The decorator that a setting adds. -/
def decorator? : Setting → Option (DecoratorSlot × Decorator)
  | .decorator slot d => some (slot, d)
  | _ => none

end Setting

namespace Plan

/-- The plan without what settings add up to. -/
def decided (p : Plan) : Plan :=
  { p with preferences := { p.preferences with similarity := [] }, decorators := [] }

variable {p q : Plan} {xs ys : List Setting}

theorem decided_set (p : Plan) (s : Setting) : (p.set s).decided = (p.decided.set s).decided := by
  cases s <;> rfl

/-- Settings that decide different things may change places, and those that add to lists leave
what is decided alone. -/
theorem decided_set_comm (p : Plan) {s t : Setting}
    (h : s.decision? = t.decision? → s.decision? = none) :
    ((p.set s).set t).decided = ((p.set t).set s).decided := by
  cases s <;> cases t <;> try rfl
  all_goals exact absurd (h rfl) nofun

theorem decided_setAll (p : Plan) (xs : List Setting) :
    (p.setAll xs).decided = xs.foldl (fun q s => (q.set s).decided) p.decided := by
  induction xs generalizing p with
  | nil => rfl
  | cons s xs ih =>
    rw [List.foldl_cons, ← decided_set]
    exact ih (p.set s)

theorem decided_setAll_eq_of_perm (h : xs.Perm ys) (once : (xs.filterMap Setting.decision?).Nodup)
    (p : Plan) : (p.setAll xs).decided = (p.setAll ys).decided := by
  rw [decided_setAll, decided_setAll]
  have hdistinct : ∀ s ∈ xs, ∀ t ∈ xs, s ≠ t → s.decision? = t.decision? → s.decision? = none := by
    have hsymm : Std.Symm fun s t : Setting => ∀ d, s.decision? = some d →
        ∀ d', t.decision? = some d' → d ≠ d' := ⟨fun s t h d hd d' hd' => (h d' hd' d hd).symm⟩
    intro s hs t ht hst heq
    have hne := (List.pairwise_filterMap.mp once).forall hs ht hst
    cases hd : s.decision? with
    | none => rfl
    | some d => exact absurd rfl (hne d hd d (heq ▸ hd))
  refine h.foldl_eq' (fun s hs t ht q => ?_) _
  by_cases hst : s = t
  · rw [hst]
  · rw [← decided_set, ← decided_set]
    exact decided_set_comm q (hdistinct s hs t ht hst)

/-- A list that each setting adds to or leaves alone. -/
theorem setAll_collects {α : Type} (collected : Plan → List α) (item? : Setting → Option α)
    (h : ∀ p s, collected (p.set s) = collected p ++ (item? s).toList) (p : Plan)
    (xs : List Setting) : collected (p.setAll xs) = collected p ++ xs.filterMap item? := by
  induction xs generalizing p with
  | nil => exact (List.append_nil _).symm
  | cons s xs ih =>
    refine (ih (p.set s)).trans ?_
    rw [h]
    cases hs : item? s <;> simp [hs]

theorem similarity_setAll (p : Plan) (xs : List Setting) : (p.setAll xs).preferences.similarity =
    p.preferences.similarity ++ xs.filterMap Setting.similarity? := by
  refine setAll_collects (·.preferences.similarity) _ (fun p s => ?_) p xs
  cases s <;> simp [set, prefer, Setting.similarity?]

theorem decorators_setAll (p : Plan) (xs : List Setting) : (p.setAll xs).decorators =
    p.decorators ++ xs.filterMap Setting.decorator? := by
  refine setAll_collects decorators _ (fun p s => ?_) p xs
  cases s <;> simp [set, prefer, Setting.decorator?]

/-- Limits of different shares are sorted in one way only. -/
theorem similarityLimits_eq_of_perm
    (h : p.preferences.similarity.Perm q.preferences.similarity)
    (distinct : (p.preferences.similarity.map fun s => Number.Binary64.totalKey s.share).Nodup) :
    p.similarityLimits = q.similarityLimits := by
  refine mergeSort_eq_of_perm (fun a b c => ?_) (fun a b => ?_) h fun a ha b hb hab hba => ?_
  · exact Number.Binary64.totalLE_trans (x := a.share) (y := b.share) (z := c.share)
  · exact Number.Binary64.totalLE_total a.share b.share
  simp only [Number.Binary64.totalLE, decide_eq_true_eq] at hab hba
  exact List.inj_on_of_nodup_map distinct ha hb (Int.le_antisymm hab hba)

/-! Phases -/

/-- The decorators that run in a phase, in their order. -/
def decoratorsIn (φ : Phase) (ds : List (DecoratorSlot × Decorator)) :
    List (DecoratorSlot × Decorator) := ds.filter fun d => d.1.phase = φ

/-- The stages of a phase, in their order. -/
def stagesIn (φ : Phase) (stages : List (Phase × Stage)) : List (Phase × Stage) :=
  stages.filter fun x => x.1 = φ

theorem rank_injective : Function.Injective Phase.rank := by
  intro φ ψ h
  cases φ <;> cases ψ <;> first | rfl | cases h

theorem phaseLE_trans (a b c : Phase × Stage) (hab : decide (a.1.rank ≤ b.1.rank) = true)
    (hbc : decide (b.1.rank ≤ c.1.rank) = true) : decide (a.1.rank ≤ c.1.rank) = true := by
  simp only [decide_eq_true_eq] at *
  omega

theorem phaseLE_total (a b : Phase × Stage) :
    (decide (a.1.rank ≤ b.1.rank) || decide (b.1.rank ≤ a.1.rank)) = true := by
  simp only [Bool.or_eq_true, decide_eq_true_eq]
  omega

theorem chain_sorted (p : Plan) : p.chain.stages.Pairwise fun a b => a.1.rank ≤ b.1.rank :=
  (List.pairwise_mergeSort phaseLE_trans phaseLE_total p.stages).imp of_decide_eq_true

/-- The order of phases leaves the stages of one phase as they are. -/
theorem stagesIn_chain (p : Plan) (φ : Phase) :
    stagesIn φ p.chain.stages = stagesIn φ p.stages := by
  refine (filter_mergeSort phaseLE_trans phaseLE_total _ p.stages).trans ?_
  refine List.mergeSort_of_pairwise (List.pairwise_of_forall_mem_list fun a ha b hb => ?_)
  rw [List.mem_filter, decide_eq_true_eq] at ha hb
  rw [ha.2, hb.2]
  exact decide_eq_true (Nat.le_refl _)

section stagesIn
variable {φ ψ : Phase}

@[simp] theorem stagesIn_nil : stagesIn φ [] = [] := rfl

@[simp] theorem stagesIn_cons (x : Phase × Stage) (stages : List (Phase × Stage)) :
    stagesIn φ (x :: stages) = if x.1 = φ then x :: stagesIn φ stages else stagesIn φ stages := by
  simp [stagesIn, List.filter_cons]

@[simp] theorem stagesIn_append (xs ys : List (Phase × Stage)) :
    stagesIn φ (xs ++ ys) = stagesIn φ xs ++ stagesIn φ ys := List.filter_append ..

@[simp] theorem stagesIn_ite {c : Prop} [Decidable c] (stages : List (Phase × Stage)) :
    stagesIn φ (if c then stages else []) = if c then stagesIn φ stages else [] := by
  split <;> rfl

theorem stagesIn_of_phase {stages : List (Phase × Stage)} (h : ∀ x ∈ stages, x.1 = ψ) :
    stagesIn φ stages = if ψ = φ then stages else [] := by
  rw [stagesIn]
  split
  case isTrue heq =>
    exact List.filter_eq_self.mpr fun x hx => decide_eq_true ((h x hx).trans heq)
  case isFalse hne =>
    refine List.filter_eq_nil_iff.mpr fun x hx => ?_
    rw [h x hx, decide_eq_true_eq]
    exact hne

@[simp] theorem stagesIn_whenOn {on : Bool} {f : Flagger} :
    stagesIn φ (whenOn on ψ f) = if ψ = φ then whenOn on ψ f else [] :=
  stagesIn_of_phase phase_of_mem_whenOn

@[simp] theorem stagesIn_whenSet {α : Type} {limit : Option α} {f : α → Flagger} :
    stagesIn φ (whenSet limit ψ f) = if ψ = φ then whenSet limit ψ f else [] :=
  stagesIn_of_phase phase_of_mem_whenSet

@[simp] theorem stagesIn_map_similarityStage (limits : List SimilarityLimit) :
    stagesIn φ (limits.map fun s => (.grouping, similarityStage s)) =
      if .grouping = φ then limits.map fun s => (.grouping, similarityStage s) else [] :=
  stagesIn_of_phase (by simp)

theorem stagesIn_decoratorStages (p : Plan) : stagesIn φ p.decoratorStages =
    ((decoratorsIn φ p.decorators).filter fun (slot, _) =>
      slot ≠ .accessibilityScore || p.preferences.accessibilityScore).map fun (slot, d) =>
        (slot.phase, .decorate d) := by
  rw [stagesIn, decoratorStages, List.filter_map, List.filter_filter, decoratorsIn,
    List.filter_filter]
  congr 2
  funext x
  exact Bool.and_comm _ _

end stagesIn

/-- A plan is what is decided, with its limits and decorators put back. -/
theorem eq_of_decided (h : p.decided = q.decided) : p = { q with
    preferences := { q.preferences with similarity := p.preferences.similarity }
    decorators := p.decorators } :=
  congrArg (fun d : Plan => { d with
    preferences := { d.preferences with similarity := p.preferences.similarity }
    decorators := p.decorators }) h

/-- A chain depends on what is decided, on the limits as they are sorted and on the decorators phase
by phase. -/
theorem chain_eq (hdecided : p.decided = q.decided)
    (hlimits : p.similarityLimits = q.similarityLimits)
    (hdecorators : ∀ φ, decoratorsIn φ p.decorators = decoratorsIn φ q.decorators) :
    p.chain = q.chain := by
  have hp := eq_of_decided hdecided
  have hstages : ∀ φ, stagesIn φ p.stages = stagesIn φ q.stages := by
    intro φ
    simp only [stages, ruleStages, stagesIn_append, stagesIn_decoratorStages, hdecorators, hlimits]
    rw [hp]
    rfl
  have hchain : p.chain.stages = q.chain.stages := by
    refine eq_of_filter_key Prod.fst (fun φ ψ : Phase => φ.rank ≤ ψ.rank)
      (fun φ => Nat.le_refl φ.rank) (fun φ ψ hle hge => rank_injective (Nat.le_antisymm hle hge))
      p.chain_sorted q.chain_sorted fun φ => ?_
    exact (p.stagesIn_chain φ).trans ((hstages φ).trans (q.stagesIn_chain φ).symm)
  have hrest : p.chain = { q.chain with stages := p.chain.stages } := by
    conv_lhs => rw [hp]
    rw [hp]
    rfl
  rw [hrest, hchain]

/-- Settings given in two orders: each decision is made once at most, no two similarity limits have
the same share, and the decorators of each phase stay in their order. -/
structure Interchangeable (p : Plan) (xs ys : List Setting) : Prop where
  perm : xs.Perm ys
  once : (xs.filterMap Setting.decision?).Nodup
  shares : ((p.preferences.similarity ++ xs.filterMap Setting.similarity?).map fun limit =>
    Number.Binary64.totalKey limit.share).Nodup
  decorators φ : decoratorsIn φ (xs.filterMap Setting.decorator?) =
    decoratorsIn φ (ys.filterMap Setting.decorator?)

theorem chain_eq_of_interchangeable (h : p.Interchangeable xs ys) :
    (p.setAll xs).chain = (p.setAll ys).chain := by
  refine chain_eq (decided_setAll_eq_of_perm h.perm h.once p) ?_ fun φ => ?_
  · refine similarityLimits_eq_of_perm ?_ ?_
    · rw [similarity_setAll, similarity_setAll]
      exact (h.perm.filterMap _).append_left _
    · rw [similarity_setAll]
      exact h.shares
  · rw [decorators_setAll, decorators_setAll, decoratorsIn, decoratorsIn, List.filter_append,
      List.filter_append]
    exact congrArg _ (h.decorators φ)

/-! Phases without decorators -/

/-- No decorator runs in a phase that no slot has. -/
theorem decoratorsIn_eq_nil {φ : Phase} (h : ∀ slot : DecoratorSlot, slot.phase ≠ φ)
    (ds : List (DecoratorSlot × Decorator)) : decoratorsIn φ ds = [] :=
  List.filter_eq_nil_iff.mpr fun d _ => by simpa using h d.1

/-- The cap has its phase to itself, and always runs. -/
theorem stagesIn_chain_cap (p : Plan) :
    stagesIn .cap p.chain.stages = [(.cap, .cap p.max p.croppedEnd p.order)] := by
  rw [stagesIn_chain]
  simp [stages, ruleStages, windowStages, shownStages, stagesIn_decoratorStages,
    decoratorsIn_eq_nil (φ := .cap) fun slot => by cases slot <;> decide]

/-- So does the final sort. -/
theorem stagesIn_chain_finalSort (p : Plan) :
    stagesIn .finalSort p.chain.stages = [(.finalSort, .sort (.results p.order))] := by
  rw [stagesIn_chain]
  simp [stages, ruleStages, windowStages, shownStages, stagesIn_decoratorStages,
    decoratorsIn_eq_nil (φ := .finalSort) fun slot => by cases slot <;> decide]

/-- A run goes through its phases in order, with one cap and one final sort. -/
structure InPhases (p : Plan) : Prop where
  sorted : p.chain.stages.Pairwise fun a b => a.1.rank ≤ b.1.rank
  cap : stagesIn .cap p.chain.stages = [(.cap, .cap p.max p.croppedEnd p.order)]
  finalSort : stagesIn .finalSort p.chain.stages = [(.finalSort, .sort (.results p.order))]

/-- Settings may come in any order: the run is the same. Whatever they are, it goes through its
phases. -/
theorem settings_in_any_order (p : Plan) :
    (∀ xs ys, p.Interchangeable xs ys → (p.setAll xs).chain = (p.setAll ys).chain) ∧
    ∀ settings, (p.setAll settings).InPhases :=
  ⟨fun _ _ => chain_eq_of_interchangeable, fun _ =>
    ⟨chain_sorted _, stagesIn_chain_cap _, stagesIn_chain_finalSort _⟩⟩

/-- A decorator that has nothing to add. -/
def idle (name : String) : Decorator := ⟨name, .ok⟩

/-- Settings of many kinds, decorators of two phases among them. -/
def mixed : List Setting := [.decorator .rideHailing (idle "taxis"), .similarity (.ofShare 0.85 1),
  .max 3 .head, .decorator .fares (idle "fares"), .similarity (.ofShare 0.68 2), .sameEndTrip true,
  .window (.ofMinutes 480) (.ofMinutes 60), .debug .listAll]

theorem settings_in_any_order_mixed :
    (bare .streetAndArrival).Interchangeable mixed mixed.reverse ∧
      ((bare .streetAndArrival).setAll mixed).chain =
        ((bare .streetAndArrival).setAll mixed.reverse).chain := by
  have hinterchangeable : (bare .streetAndArrival).Interchangeable mixed mixed.reverse := {
    perm := mixed.reverse_perm.symm
    once := by decide
    shares := by decide
    decorators := fun φ => by cases φ <;> rfl }
  exact ⟨hinterchangeable, (settings_in_any_order _).1 _ _ hinterchangeable⟩

end Plan
end JourneyPages
