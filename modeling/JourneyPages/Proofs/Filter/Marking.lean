import JourneyPages.Proofs.Filter.Chain

/-!
What becomes of each itinerary in a run. Every stage of a run gives back the itineraries that it was
given, those that were rejected with the tags they had and the others with one tag at most.
Reinstating happens only inside a grouping, and what comes into a grouping was kept.
-/
namespace JourneyPages

namespace Itinerary

/-- The same itinerary as it is shown for debugging: with a notice for its tag, if it was rejected
in the run. -/
structure Explained (before after : Itinerary) : Prop where
  legs : after.legs = before.legs
  cost : after.cost = before.cost
  decorations : after.decorations = before.decorations
  tags : before.isKept = false → after.tags = before.tags
  notices : before.isKept → before.notices = [] →
    after.tags = [] ∧ after.notices = [] ∨
      ∃ tag, after.tags = [tag] ∧ after.notices = [⟨tag, "would be removed by " ++ tag⟩]

theorem Marked.explained {before after : Itinerary} (h : Marked before after) :
    Explained before after.explain where
  legs := show after.untagged.legs = before.untagged.legs by rw [h.untagged]
  cost := show after.untagged.cost = before.untagged.cost by rw [h.untagged]
  decorations := show after.untagged.decorations = before.untagged.decorations by rw [h.untagged]
  tags := h.tags_of_not_isKept
  notices := by
    intro hkept hnone
    have hsame : after.untagged.notices = before.untagged.notices := by rw [h.untagged]
    have hbefore : after.notices = [] := hsame.trans hnone
    have hexplain : after.explain.notices =
        after.tags.map fun tag => ⟨tag, "would be removed by " ++ tag⟩ := by
      rw [explain, addNotices, hbefore, List.nil_append]
    rcases h.tags with htags | ⟨-, tag, htags⟩
    · have hempty := htags.trans (isKept_iff.mp hkept)
      exact .inl ⟨hempty, by rw [hexplain, hempty, List.map_nil]⟩
    · exact .inr ⟨tag, htags, by rw [hexplain, htags, List.map_singleton]⟩

end Itinerary

open Itinerary (Marked Explained)

namespace Stage

/-- A stage that loses and doubles no itinerary, leaves rejected ones alone, and puts one tag at
most on the others. -/
def Marks (s : Stage) : Prop :=
  ∀ p, ∃ after, s.run p = .ok after ∧ Corresponds Marked p.itineraries after.itineraries

theorem marks_reject (flagger : Flagger) : (reject flagger).Marks :=
  fun p => ⟨_, rfl, corresponds_reject flagger p.itineraries⟩

theorem marks_sort (ranking : Ranking) : (sort ranking).Marks :=
  fun p => ⟨_, rfl, corresponds_sort ranking p.itineraries⟩

theorem marks_cap (max : Nat) (e : ListEnd) (o : SortOrder) : (cap max e o).Marks :=
  fun p => ⟨_, rfl, .of_forall₂ (Cap.forall₂_run max e o p.itineraries)⟩

theorem marks_group {name : String} {grouping : Grouping} {nested : List Stage}
    (h : (group name grouping nested).Quiet) : (group name grouping nested).Marks := by
  intro p
  refine ⟨_, h.run_eq p, ?_⟩
  cases h with
  | group quiet =>
    exact corresponds_group (corresponds_outcomeAll fun s hs => (quiet s hs).corresponds) name
      grouping p.itineraries

theorem runAll_of_marks {stages : List Stage} (h : ∀ s ∈ stages, s.Marks) (p : Progress) :
    ∃ after, runAll stages p = .ok after ∧ Corresponds Marked p.itineraries after.itineraries := by
  induction stages generalizing p with
  | nil => exact ⟨p, rfl, .of_perm Marked.refl (.refl _)⟩
  | cons s stages ih =>
    obtain ⟨mid, hs, hmid⟩ := h s List.mem_cons_self p
    obtain ⟨after, hrest, hafter⟩ := ih (fun t ht => h t (List.mem_cons_of_mem s ht)) mid
    refine ⟨after, ?_, hmid.trans Marked.trans hafter⟩
    simp only [runAll, hs, bind, Except.bind]
    exact hrest

end Stage

namespace Plan
variable {p : Plan}

theorem marks_of_mem_chain (h : p.decorators = []) :
    ∀ s ∈ p.chain.stages.map (·.2), s.Marks :=
  forall_mem_chain (by simp [h]) Stage.marks_reject Stage.marks_sort
    (fun limit => Stage.marks_group (quiet_similarityStage limit))
    (fun o => Stage.marks_group (quiet_sameRoutesAndStopsStage o)) Stage.marks_cap

/-- Each stage of a run goes along with the one-to-one correspondence of itineraries, and so does
the run up to there. With all itineraries listed at the end, those that were rejected in the run say
so in one notice. -/
theorem corresponds_marked (h : p.decorators = []) (its : List Itinerary) :
    (∀ front s back, p.chain.stages.map (·.2) = front ++ s :: back → ∃ before after,
      Stage.runAll front ⟨its, none⟩ = .ok before ∧ s.run before = .ok after ∧
      Corresponds Marked before.itineraries after.itineraries ∧
      Corresponds Marked its after.itineraries) ∧
    (p.preferences.debug = .listAll → ∃ result, p.chain.run its = .ok result ∧
      Corresponds Explained its result.itineraries) := by
  have hmarks := marks_of_mem_chain h
  constructor
  · intro front s back hstages
    rw [hstages] at hmarks
    obtain ⟨before, hbefore, hfront⟩ := Stage.runAll_of_marks
      (fun t ht => hmarks t (List.mem_append_left _ ht)) ⟨its, none⟩
    obtain ⟨after, hafter, hs⟩ := hmarks s (by simp) before
    exact ⟨before, after, hbefore, hafter, hs, hfront.trans Marked.trans hs⟩
  · intro debug
    obtain ⟨done, hdone, hall⟩ := Stage.runAll_of_marks hmarks ⟨its, none⟩
    have hrun : p.chain.run its = .ok ⟨done.itineraries.map Itinerary.explain, done.cap⟩ := by
      have hsweep : p.chain.sweep done.itineraries = done.itineraries.map Itinerary.explain := by
        rw [Chain.sweep_eq, chain, debug]
      simp only [Chain.run, hdone, hsweep, bind, Except.bind, pure, Except.pure]
    exact ⟨_, hrun, hall.map_right Marked.explained⟩

/-- A plan with two limits of one name that lists everything. -/
def twofold : Plan := { ofPreferences .standard .streetAndDeparture with
  preferences := { FilterPreferences.standard with
    similarity := [.ofShare 0.85 1, .ofShare 0.85 1], debug := .listAll }
  max := 1 }

theorem corresponds_marked_twofold : twofold.decorators = [] ∧
    twofold.preferences.debug = .listAll ∧
    (∀ front s back, twofold.chain.stages.map (·.2) = front ++ s :: back → ∃ before after,
      Stage.runAll front ⟨[slowRide, fastRide.reject "seen", quickRide], none⟩ = .ok before ∧
      s.run before = .ok after ∧
      Corresponds Marked before.itineraries after.itineraries ∧
      Corresponds Marked [slowRide, fastRide.reject "seen", quickRide] after.itineraries) ∧
    ∃ result, twofold.chain.run [slowRide, fastRide.reject "seen", quickRide] = .ok result ∧
      Corresponds Explained [slowRide, fastRide.reject "seen", quickRide] result.itineraries := by
  obtain ⟨hstages, hlisted⟩ :=
    corresponds_marked (p := twofold) rfl [slowRide, fastRide.reject "seen", quickRide]
  exact ⟨rfl, rfl, hstages, hlisted rfl⟩

end Plan
end JourneyPages
