import JourneyPages.Filter.Plan
import JourneyPages.Proofs.Filter.Cap
import JourneyPages.Proofs.Filter.Verdicts

/-!
Runs without decorators. The settings of a plan are then in the order of their phases, nothing in
front of the cap reports a cut, and what comes to the cap decides the report and the final list.
-/
namespace JourneyPages

open Itinerary (untagged)

/-- Every optional rule is off. -/
structure FilterPreferences.IsBare (f : FilterPreferences) : Prop where
  similarity : f.similarity = []
  sameRoutesAndStops : f.sameRoutesAndStops = false
  sameEndTrip : f.sameEndTrip = false
  leastBicycleDistance : ¬ 0.0 < f.leastBicycleDistance
  transitCost : f.transitCost = .none
  streetCost : f.streetCost = .none
  dearerThanStreet : f.dearerThanStreet = .none
  dearerThanWalk : f.dearerThanWalk = false
  walkOnly : f.walkOnly = false
  rentedBicycleRatio : ¬ 0.0 < f.rentedBicycleRatio
  drivingRatio : ¬ 0.0 < f.drivingRatio

/-- A sweep, one profile at a time. -/
theorem Chain.sweep_eq (c : Chain) (its : List Itinerary) : c.sweep its =
    match c.debug with
    | .off => its.filter Itinerary.isKept
    | .listAll => its.map Itinerary.explain
    | .limitToWindow =>
      (its.filter fun it => "outside-search-window" ∉ it.tags).map Itinerary.explain
    | .limitToCount => match c.croppedEnd with
      | .tail => (its.map Itinerary.explain).take c.max
      | .head => (its.map Itinerary.explain).drop ((its.map Itinerary.explain).length - c.max) := by
  unfold Chain.sweep
  cases c.debug <;> rfl

namespace Plan

/-! Order of stages -/

/-- Stages in the order of their phases, none behind `phase`. -/
structure UpTo (phase : Phase) (xs : List (Phase × Stage)) : Prop where
  sorted : xs.Pairwise fun a b => a.1.rank ≤ b.1.rank
  le : ∀ x ∈ xs, x.1.rank ≤ phase.rank

section UpTo
variable {φ ψ : Phase} {xs ys : List (Phase × Stage)}

theorem upTo_nil (φ : Phase) : UpTo φ [] := ⟨.nil, by simp⟩

theorem UpTo.append (h : UpTo φ xs) (hle : φ.rank ≤ ψ.rank) (hys : ∀ y ∈ ys, y.1 = ψ) :
    UpTo ψ (xs ++ ys) := by
  have hsame : ys.Pairwise fun a b => a.1.rank ≤ b.1.rank :=
    List.pairwise_of_forall_mem_list fun a ha b hb => by rw [hys a ha, hys b hb]
  refine ⟨List.pairwise_append.mpr ⟨h.sorted, hsame, ?_⟩, ?_⟩
  · intro a ha b hb
    rw [hys b hb]
    exact (h.le a ha).trans hle
  · intro a ha
    rcases List.mem_append.mp ha with ha | ha
    · exact (h.le a ha).trans hle
    · rw [hys a ha]

end UpTo

theorem phase_of_mem_whenOn {on : Bool} {φ : Phase} {f : Flagger} :
    ∀ x ∈ whenOn on φ f, x.1 = φ := by
  intro x hx
  cases on <;> simp_all [whenOn]

theorem phase_of_mem_whenSet {α : Type} {limit : Option α} {φ : Phase} {f : α → Flagger} :
    ∀ x ∈ whenSet limit φ f, x.1 = φ := by
  intro x hx
  cases limit <;> simp_all [whenSet]

variable {p : Plan}

theorem decoratorStages_eq_nil (h : p.decorators = []) : p.decoratorStages = [] := by
  simp [decoratorStages, h]

/-- Without decorators the rules are in the order of their phases. -/
theorem ruleStages_upTo (h : p.decorators = []) : UpTo .dominance p.ruleStages := by
  unfold ruleStages
  refine UpTo.append (φ := .dominance) ?_ (by decide) phase_of_mem_whenOn
  refine UpTo.append (φ := .dominance) ?_ (by decide) phase_of_mem_whenOn
  refine UpTo.append (φ := .dominance) ?_ (by decide) phase_of_mem_whenOn
  refine UpTo.append (φ := .dominance) ?_ (by decide) phase_of_mem_whenOn
  refine UpTo.append (φ := .costLimit) ?_ (by decide) phase_of_mem_whenSet
  refine UpTo.append (φ := .costLimit) ?_ (by decide) phase_of_mem_whenSet
  refine UpTo.append (φ := .absolute) ?_ (by decide) phase_of_mem_whenSet
  refine UpTo.append (φ := .absolute) ?_ (by decide) (by simp [decoratorStages_eq_nil h])
  refine UpTo.append (φ := .sameEndTrip) ?_ (by decide) phase_of_mem_whenOn
  refine UpTo.append (φ := .grouping) ?_ (by decide) (by split <;> simp)
  refine UpTo.append (φ := .grouping) ?_ (by decide) (by split <;> simp)
  exact (upTo_nil .grouping).append (by decide) (by simp)

theorem stages_upTo (h : p.decorators = []) : UpTo .finalSort p.stages := by
  unfold stages
  rw [List.append_cons]
  refine UpTo.append (φ := .cap) ?_ (by decide) (by simp)
  refine UpTo.append (φ := .paging) ?_ (by decide) (by simp)
  refine UpTo.append (φ := .paging) ?_ (by decide) phase_of_mem_whenSet
  exact (ruleStages_upTo h).append (by decide) phase_of_mem_whenSet

/-- The stages in front of the cap. -/
def front (p : Plan) : List Stage :=
  (p.ruleStages ++ p.windowStages ++ p.shownStages).map (·.2)

theorem chain_stages (h : p.decorators = []) : p.chain.stages.map (·.2) =
    p.front ++ [.cap p.max p.croppedEnd p.order, .sort (.results p.order)] := by
  have hsorted : p.chain.stages = p.stages :=
    List.mergeSort_of_pairwise ((stages_upTo h).sorted.imp fun hle => decide_eq_true hle)
  rw [hsorted, stages, List.map_append]
  rfl

/-! Rules -/

section rules
variable {P : Stage → Prop}

theorem forall_mem_whenOn (reject : ∀ f, P (.reject f)) {on : Bool} {φ : Phase} {f : Flagger} :
    ∀ x ∈ whenOn on φ f, P x.2 := by
  intro x hx
  cases on <;> simp_all [whenOn]

theorem forall_mem_whenSet (reject : ∀ f, P (.reject f)) {α : Type} {limit : Option α} {φ : Phase}
    {f : α → Flagger} : ∀ x ∈ whenSet limit φ f, P x.2 := by
  intro x hx
  cases limit <;> simp_all [whenSet]

variable (decorate : ∀ x ∈ p.decorators, P (.decorate x.2)) (reject : ∀ f, P (.reject f))
  (sort : ∀ ranking, P (.sort ranking)) (similarity : ∀ s, P (similarityStage s))
  (sameRoutesAndStops : ∀ o, P (sameRoutesAndStopsStage o))
include decorate reject sort similarity sameRoutesAndStops

/-- The kinds of stages that rules are made of. -/
theorem forall_mem_ruleStages : ∀ x ∈ p.ruleStages, P x.2 := by
  unfold ruleStages
  simp only [List.forall_mem_append]
  and_intros
  · simp [similarity]
  · split <;> simp [sameRoutesAndStops]
  · split <;> simp [sort, reject]
  · exact forall_mem_whenOn reject
  · rw [decoratorStages, List.forall_mem_map]
    exact fun x hx => decorate x (List.mem_of_mem_filter hx)
  · exact forall_mem_whenSet reject
  · exact forall_mem_whenSet reject
  · exact forall_mem_whenSet reject
  · exact forall_mem_whenOn reject
  · exact forall_mem_whenOn reject
  · exact forall_mem_whenOn reject
  · exact forall_mem_whenOn reject

theorem forall_mem_front : ∀ s ∈ p.front, P s := by
  intro s hs
  obtain ⟨x, hx, rfl⟩ := List.mem_map.mp hs
  rcases List.mem_append.mp hx with hx | hx
  · rcases List.mem_append.mp hx with hx | hx
    · exact forall_mem_ruleStages decorate reject sort similarity sameRoutesAndStops x hx
    · exact forall_mem_whenSet reject x hx
  · exact forall_mem_whenSet reject x hx

/-- The kinds of stages that a run is made of. -/
theorem forall_mem_chain (cap : ∀ max e o, P (.cap max e o)) :
    ∀ s ∈ p.chain.stages.map (·.2), P s := by
  intro s hs
  obtain ⟨x, hx, rfl⟩ := List.mem_map.mp hs
  rw [chain, List.mem_mergeSort, stages, List.mem_append] at hx
  rcases hx with hx | hx
  · exact forall_mem_front decorate reject sort similarity sameRoutesAndStops x.2
      (List.mem_map_of_mem hx)
  · rcases List.mem_pair.mp hx with rfl | rfl
    · exact cap _ _ _
    · exact sort _

end rules

section front
variable {P : List Stage → Prop} (nil : P []) (append : ∀ {xs ys}, P xs → P ys → P (xs ++ ys))
  (reject : ∀ f : Flagger, f.goesByOrder = false → (∀ factor, f ≠ .dearOtherLegs factor) →
    P [.reject f])
include nil

theorem of_whenOn {on : Bool} {φ : Phase} {f : Flagger} (h : P [.reject f]) :
    P ((whenOn on φ f).map (·.2)) := by
  cases on
  · exact nil
  · exact h

theorem of_whenSet {α : Type} {limit : Option α} {φ : Phase} {f : α → Flagger}
    (h : ∀ x, P [.reject (f x)]) : P ((whenSet limit φ f).map (·.2)) := by
  cases limit with
  | none => exact nil
  | some x => exact h x

include append

theorem of_forall_singleton {stages : List Stage} (h : ∀ s ∈ stages, P [s]) : P stages := by
  induction stages with
  | nil => exact nil
  | cons s stages ih =>
    have hrest := ih fun t ht => h t (List.mem_cons_of_mem s ht)
    exact append (h s List.mem_cons_self) hrest

include reject

/-- What the stages in front of the cap are made of. Only in groups, and behind a sort, there are
rules that go down the list. -/
theorem front_induction (h : p.decorators = [])
    (similarity : ∀ s ∈ p.preferences.similarity, P [similarityStage s])
    (sameRoutesAndStops : P [sameRoutesAndStopsStage p.order])
    (sameEndTrip : P [.sort .cost, .reject .sameEndTrip]) : P p.front := by
  rw [front, ruleStages, decoratorStages_eq_nil h]
  simp only [List.map_append]
  -- From the last rule to the first.
  refine append (append ?_ (of_whenSet nil fun _ => reject _ rfl nofun))
    (of_whenSet nil fun _ => reject _ rfl nofun)
  refine append ?_ (of_whenOn nil (reject _ rfl nofun))
  refine append ?_ (of_whenOn nil (reject _ rfl nofun))
  refine append ?_ (of_whenOn nil (reject _ rfl nofun))
  refine append ?_ (of_whenOn nil (reject _ rfl nofun))
  refine append ?_ (of_whenSet nil fun _ => reject _ rfl nofun)
  refine append ?_ (of_whenSet nil fun _ => reject _ rfl nofun)
  refine append ?_ (of_whenSet nil fun _ => reject _ rfl nofun)
  refine append (append ?_ (of_whenOn nil (reject _ rfl nofun))) nil
  refine append (append ?_ ?_) ?_
  · apply of_forall_singleton nil append
    simpa [similarityLimits] using similarity
  · split
    · exact sameRoutesAndStops
    · exact nil
  · split
    · exact sameEndTrip
    · exact nil

end front

section quiet
open Stage (Quiet)

theorem quiet_similarityStage (s : SimilarityLimit) : (similarityStage s).Quiet := by
  apply Quiet.group
  simp only [List.forall_mem_append]
  and_intros
  · split
    · rw [List.forall_mem_singleton]
      exact Quiet.group (by simp [Quiet.sort, Quiet.reject])
    · simp
  · split <;> simp [Quiet.reject]
  · simp [Quiet.sort, Quiet.reject, Quiet.reinstate]

theorem quiet_sameRoutesAndStopsStage (o : SortOrder) : (sameRoutesAndStopsStage o).Quiet :=
  Quiet.group (by simp [Quiet.sort, Quiet.reject])

/-- No rule reports a cut, and none changes an itinerary but for its tags. -/
theorem quiet_of_mem_ruleStages (h : p.decorators = []) : ∀ x ∈ p.ruleStages, x.2.Quiet :=
  forall_mem_ruleStages (by simp [h]) Quiet.reject Quiet.sort quiet_similarityStage
    quiet_sameRoutesAndStopsStage

theorem quiet_of_mem_front (h : p.decorators = []) : ∀ s ∈ p.front, s.Quiet :=
  forall_mem_front (by simp [h]) Quiet.reject Quiet.sort quiet_similarityStage
    quiet_sameRoutesAndStopsStage

/-- The cap stands in one place only. -/
theorem cap_not_mem_front (h : p.decorators = []) (max : Nat) (e : ListEnd) (o : SortOrder) :
    Stage.cap max e o ∉ p.front := by
  intro hmem
  cases quiet_of_mem_front h _ hmem

end quiet

/-! What comes to the cap -/

/-- The kept itineraries that come to the cap, in the order of results. -/
def offered (p : Plan) (its : List Itinerary) : List Itinerary :=
  match Stage.runAll p.front ⟨its, none⟩ with
  | .ok q => sortByRanks p.order.ranks (q.itineraries.filter Itinerary.isKept)
  | .error _ => []

/-- Whether neither the window nor the neighbouring page rules an itinerary out. -/
def admits (p : Plan) (it : Itinerary) : Bool :=
  (p.window.all fun x => !(Flagger.outsideWindow x.1 x.2).rejectsAlone it) &&
  p.shown.all fun x => !(Flagger.alreadyShown p.order x.2 x.1).rejectsAlone it

/-- A stage for a rule that looks at one itinerary at a time. -/
theorem runAll_whenSet {α : Type} (limit : Option α) (φ : Phase) {f : α → Flagger}
    (hf : ∀ x its, (f x).verdicts its = its.map (f x).rejectsAlone) (q : Progress) :
    ∃ out, Stage.runAll ((whenSet limit φ f).map (·.2)) q = .ok ⟨out, q.cap⟩ ∧
      out.filter Itinerary.isKept = (q.itineraries.filter Itinerary.isKept).filter
        fun it => limit.all fun x => !(f x).rejectsAlone it := by
  cases limit with
  | none => exact ⟨q.itineraries, rfl, by simp⟩
  | some x => exact ⟨(f x).run q.itineraries, rfl, by simp [Flagger.filter_isKept_run (hf x)]⟩

/-- The stages in front of the cap: the rules, then what paging rules out by itself. -/
theorem runAll_front (h : p.decorators = []) (its : List Itinerary) : ∃ ruled out,
    Stage.runAll (p.ruleStages.map (·.2)) ⟨its, none⟩ = .ok ⟨ruled, none⟩ ∧
    (ruled.map untagged).Perm (its.map untagged) ∧
    Stage.runAll p.front ⟨its, none⟩ = .ok ⟨out, none⟩ ∧
    out.filter Itinerary.isKept = (ruled.filter Itinerary.isKept).filter p.admits := by
  have hquiet : ∀ s ∈ p.ruleStages.map (·.2), s.Quiet := by
    intro s hs
    obtain ⟨x, hx, rfl⟩ := List.mem_map.mp hs
    exact quiet_of_mem_ruleStages h x hx
  obtain ⟨ruled, hruled, hperm⟩ := Stage.runAll_of_quiet hquiet ⟨its, none⟩
  obtain ⟨inside, hinside, hkept⟩ := runAll_whenSet p.window .paging
    (f := fun x => .outsideWindow x.1 x.2) (fun _ _ => rfl) ⟨ruled, none⟩
  obtain ⟨out, hout, hnew⟩ := runAll_whenSet p.shown .paging
    (f := fun x => .alreadyShown p.order x.2 x.1) (fun _ _ => rfl) ⟨inside, none⟩
  refine ⟨ruled, out, hruled, hperm, ?_, ?_⟩
  · rw [front, List.map_append, List.map_append, List.append_assoc, Stage.runAll_append hruled]
    exact (Stage.runAll_append hinside _).trans hout
  · rw [hnew, hkept, List.filter_filter]
    apply List.filter_congr
    intro it _
    rw [admits, Bool.and_comm]

/-- What comes to the cap are the itineraries that the rules keep and paging admits. -/
theorem offered_eq (h : p.decorators = []) (its : List Itinerary) : ∃ ruled,
    Stage.runAll (p.ruleStages.map (·.2)) ⟨its, none⟩ = .ok ⟨ruled, none⟩ ∧
    (ruled.map untagged).Perm (its.map untagged) ∧
    p.offered its =
      sortByRanks p.order.ranks ((ruled.filter Itinerary.isKept).filter p.admits) := by
  obtain ⟨ruled, out, hruled, hperm, hfront, hout⟩ := runAll_front h its
  refine ⟨ruled, hruled, hperm, ?_⟩
  rw [offered, hfront, ← hout]

/-- The itineraries that the rules keep, before paging is asked. -/
def ruled (p : Plan) (its : List Itinerary) : List Itinerary :=
  match Stage.runAll (p.ruleStages.map (·.2)) ⟨its, none⟩ with
  | .ok q => q.itineraries.filter Itinerary.isKept
  | .error _ => []

theorem offered_eq_ruled (h : p.decorators = []) (its : List Itinerary) :
    p.offered its = sortByRanks p.order.ranks ((p.ruled its).filter p.admits) ∧
      ((p.ruled its).map untagged).Subperm (its.map untagged) := by
  obtain ⟨out, hout, hperm, hoffered⟩ := offered_eq h its
  have hruled : p.ruled its = out.filter Itinerary.isKept := by rw [ruled, hout]
  rw [hruled]
  exact ⟨hoffered, (List.filter_sublist.map untagged).subperm.trans hperm.subperm⟩

theorem ruleStages_of_isBare (h : p.decorators = []) (hbare : p.preferences.IsBare) :
    p.ruleStages = [] := by
  simp [ruleStages, similarityLimits, decoratorStages_eq_nil h, whenOn, whenSet, hbare.similarity,
    hbare.sameRoutesAndStops, hbare.sameEndTrip, hbare.leastBicycleDistance, hbare.transitCost,
    hbare.streetCost, hbare.dearerThanStreet, hbare.dearerThanWalk, hbare.walkOnly,
    hbare.rentedBicycleRatio, hbare.drivingRatio]

/-- Without rules, paging alone decides what comes to the cap. -/
theorem offered_of_isBare (h : p.decorators = []) (hbare : p.preferences.IsBare)
    (its : List Itinerary) : p.offered its =
      sortByRanks p.order.ranks ((its.filter Itinerary.isKept).filter p.admits) := by
  obtain ⟨ruled, hruled, -, hoffered⟩ := offered_eq h its
  rw [ruleStages_of_isBare h hbare] at hruled
  cases hruled
  exact hoffered

/-- Each of them is one of the search, but for tags that it may have lost again. -/
theorem of_mem_offered (h : p.decorators = []) {its : List Itinerary} {it : Itinerary}
    (hit : it ∈ p.offered its) :
    it.isKept ∧ p.admits it ∧ ∃ found ∈ its, found.untagged = it := by
  obtain ⟨ruled, -, hperm, hoffered⟩ := offered_eq h its
  rw [hoffered, mem_sortByRanks, List.mem_filter, List.mem_filter] at hit
  obtain ⟨⟨hmem, hkept⟩, hadmits⟩ := hit
  have huntagged : it ∈ ruled.map untagged :=
    List.mem_map.mpr ⟨it, hmem, Itinerary.untagged_of_isKept hkept⟩
  exact ⟨hkept, hadmits, List.mem_map.mp (hperm.mem_iff.mp huntagged)⟩

theorem offered_pairwise (p : Plan) (its : List Itinerary) :
    (p.offered its).Pairwise fun a b => (p.order.compare a.key b.key).isLE := by
  unfold offered
  split
  · exact sortByRanks_pairwise _ _
  · exact .nil

/-! The run -/

/-- The list at the end of all stages, in the order of results, with the rejected itineraries still
on it. -/
def gathered (p : Plan) (its : List Itinerary) : List Itinerary :=
  match Stage.runAll (p.chain.stages.map (·.2)) ⟨its, none⟩ with
  | .ok q => q.itineraries
  | .error _ => []

/-- Behind the stages in front of the cap there are the cap and the final sort. -/
theorem runAll_chain_of_front (h : p.decorators = []) {its brought : List Itinerary}
    (hfront : Stage.runAll p.front ⟨its, none⟩ = .ok ⟨brought, none⟩) :
    Stage.runAll (p.chain.stages.map (·.2)) ⟨its, none⟩ =
      .ok ⟨sortByRanks p.order.ranks (Cap.run p.max p.croppedEnd p.order brought).1,
        (Cap.run p.max p.croppedEnd p.order brought).2⟩ := by
  rw [chain_stages h, Stage.runAll_append hfront]
  simp only [Stage.runAll, Stage.run, bind, Except.bind]
  cases (Cap.run p.max p.croppedEnd p.order brought).2 <;> rfl

theorem gathered_of_front (h : p.decorators = []) {its brought : List Itinerary}
    (hfront : Stage.runAll p.front ⟨its, none⟩ = .ok ⟨brought, none⟩) :
    p.gathered its =
      sortByRanks p.order.ranks (Cap.run p.max p.croppedEnd p.order brought).1 := by
  rw [gathered, runAll_chain_of_front h hfront]

/-- Without decorators no stage fails. The report is on what comes to the cap, and kept at the end
is what the cap leaves of that. -/
theorem runAll_chain (h : p.decorators = []) (its : List Itinerary) :
    Stage.runAll (p.chain.stages.map (·.2)) ⟨its, none⟩ =
      .ok ⟨p.gathered its, Cap.reportOf p.max p.croppedEnd (p.offered its)⟩ ∧
    (p.gathered its).filter Itinerary.isKept =
      (Cap.crop p.max p.croppedEnd (p.offered its)).2 := by
  obtain ⟨ruled, brought, -, -, hfront, -⟩ := runAll_front h its
  have hoffered : p.offered its =
      sortByRanks p.order.ranks (brought.filter Itinerary.isKept) := by
    rw [offered, hfront]
  have hreport := Cap.run_snd p.max p.croppedEnd p.order brought
  have hkept := Cap.sortByRanks_run p.max p.croppedEnd p.order brought
  rw [← hoffered] at hreport hkept
  have hgathered := gathered_of_front h hfront
  constructor
  · rw [runAll_chain_of_front h hfront, hreport, hgathered]
  · rw [hgathered, filter_sortByRanks, hkept]

theorem sweep_of_off (debug : p.preferences.debug = .off) (its : List Itinerary) :
    p.chain.sweep its = its.filter Itinerary.isKept := by
  rw [Chain.sweep_eq, chain, debug]

/-- A run without decorators never fails: it sweeps what the stages gather. -/
theorem run_chain (h : p.decorators = []) (its : List Itinerary) : p.chain.run its =
    .ok ⟨p.chain.sweep (p.gathered its), Cap.reportOf p.max p.croppedEnd (p.offered its)⟩ := by
  simp only [Chain.run, (runAll_chain h its).1, bind, Except.bind, pure, Except.pure]

/-- Without debugging it ends with what the cap leaves. -/
theorem sweep_gathered (h : p.decorators = []) (debug : p.preferences.debug = .off)
    (its : List Itinerary) :
    p.chain.sweep (p.gathered its) = (Cap.crop p.max p.croppedEnd (p.offered its)).2 := by
  rw [sweep_of_off debug, (runAll_chain h its).2]

/-- The cap rejects what it takes off the itineraries that come to it. -/
theorem rejectsIn_cap_iff (h : p.decorators = []) (its : List Itinerary) (it : Itinerary) :
    Stage.RejectsIn (p.chain.stages.map (·.2)) its (.cap p.max p.croppedEnd p.order) it ↔
      it ∈ (Cap.crop p.max p.croppedEnd (p.offered its)).1 := by
  obtain ⟨ruled, brought, -, -, hfront, -⟩ := runAll_front h its
  have hoffered : p.offered its =
      sortByRanks p.order.ranks (brought.filter Itinerary.isKept) := by
    rw [offered, hfront]
  rw [chain_stages h, hoffered, ← Cap.rejects_iff]
  constructor
  · rintro ⟨front, back, before, after, hstages, hbefore, hafter, hrejected⟩
    obtain ⟨rfl, -, -⟩ := (List.append_cons_inj_of_notMem (cap_not_mem_front h _ _ _)
      (by simp)).mp hstages
    rw [hfront] at hbefore
    cases hbefore
    cases hafter
    exact hrejected
  · intro hrejected
    exact ⟨p.front, _, ⟨brought, none⟩, _, rfl, hfront, rfl, hrejected⟩

/-- Without rules, the neighbouring page alone decides on what departs in the window. -/
theorem rejectsIn_shown (h : p.decorators = []) (hbare : p.preferences.IsBare)
    {cut : SortKey} {side : ListEnd} (hshown : p.shown = some (cut, side))
    {its : List Itinerary} {it : Itinerary} (hit : it ∈ its) (hkept : it.isKept)
    (hinside : p.window.all fun x => !(Flagger.outsideWindow x.1 x.2).rejectsAlone it)
    (hrejects : (Flagger.alreadyShown p.order side cut).rejectsAlone it) :
    Stage.RejectsIn (p.chain.stages.map (·.2)) its
      (.reject (.alreadyShown p.order side cut)) it := by
  let f := Flagger.alreadyShown p.order side cut
  obtain ⟨inside, hrun, hfilter⟩ := runAll_whenSet p.window .paging
    (f := fun x => .outsideWindow x.1 x.2) (fun _ _ => rfl) ⟨its, none⟩
  have hmem : it ∈ inside.filter Itinerary.isKept := by
    rw [hfilter]
    exact List.mem_filter.mpr ⟨List.mem_filter.mpr ⟨hit, hkept⟩, hinside⟩
  obtain ⟨i, hi⟩ := List.mem_iff_getElem?.mp (List.mem_of_mem_filter hmem)
  refine ⟨p.windowStages.map (·.2), [.cap p.max p.croppedEnd p.order, .sort (.results p.order)],
    ⟨inside, none⟩, ⟨f.run inside, none⟩, ?_, hrun, rfl, i, it.reject f.tag, hi, hkept, ?_,
    Itinerary.isKept_reject it _⟩
  · rw [chain_stages h, front, ruleStages_of_isBare h hbare, shownStages, hshown]
    simp [whenSet]
  · rw [Flagger.run_eq_map fun _ => rfl]
    simp [hi, hkept, hrejects, f]

/-- Without decorators no stage changes an itinerary but for its tags. -/
theorem retains_of_mem_chain (h : p.decorators = []) :
    ∀ s ∈ p.chain.stages.map (·.2), s.Retains :=
  forall_mem_chain (by simp [h]) (fun f => (Stage.Quiet.reject f).retains)
    (fun r => (Stage.Quiet.sort r).retains) (fun s => (quiet_similarityStage s).retains)
    (fun o => (quiet_sameRoutesAndStopsStage o).retains) Cap.retains

theorem length_gathered (h : p.decorators = []) (its : List Itinerary) :
    (p.gathered its).length = its.length := by
  have hperm := Stage.perm_of_runAll (retains_of_mem_chain h) (runAll_chain h its).1
  simpa using hperm.length_eq

end Plan
end JourneyPages
