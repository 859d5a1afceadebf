import JourneyPages.Proofs.Paging.Accepted

/-!
What a page hands on to both of its neighbours: the window for the next search, in whole minutes
within the bounds that were chosen, where the page was cut, and the order of the first search.
-/
namespace JourneyPages
namespace PageRequest
variable {r : PageRequest} {policy : WindowPolicy} {its : List Itinerary}
  {report : Option CapReport} {l : PageLinks}

theorem gives_window_of_links (h : r.links policy its report = .ok (some l)) :
    policy.Gives l.window := by
  obtain ⟨opens, used, ho, hw⟩ := exists_window_of_links h
  have hwindow := window_of_links ho hw h
  rw [Option.map_some, Option.some.injEq] at hwindow
  rw [hwindow]
  exact r.gives_nextWindow policy opens used its report

theorem window_toward_of_links (h : r.links policy its report = .ok (some l)) (d : PageDirection) :
    (l.toward d).window = l.window := by
  obtain ⟨opens, used, ho, hw⟩ := exists_window_of_links h
  have hwindow := window_of_links ho hw h
  rw [Option.map_some, Option.some.injEq] at hwindow
  obtain ⟨_, hl, hover⟩ := linksOver_of_links ho hw h
  cases hl
  rw [hwindow]
  exact (window_toward hover d).1

/-- Whatever was found and wherever it was cut, a page that is linked has a window of whole minutes
within the chosen bounds for the next search, and its two cursors differ in direction and time
only. -/
theorem hands_on_window {p : PagingPreferences} (hp : p.policy = .ok policy)
    (h : r.links policy its report = .ok (some l)) :
    (∃ minutes : Int, l.window.nanos = minutes * 60000000000 ∧
      p.minMinutes ≤ minutes ∧ minutes ≤ p.maxMinutes) ∧
    ∀ d, (l.toward d).window = l.window ∧ (l.toward d).cut = report.map CapReport.cut ∧
      (l.toward d).order = r.firstOrder := by
  have hgives := gives_window_of_links h
  have hmin := hgives.min_le
  have hmax := hgives.le_max
  obtain ⟨minutes, hminutes⟩ := (PagingPreferences.inMinutes_of_policy hp).of_gives hgives
  rw [Span.le_iff, PagingPreferences.min_of_policy hp] at hmin
  rw [Span.le_iff, PagingPreferences.max_of_policy hp] at hmax
  obtain ⟨opens, used, ho, hw⟩ := exists_window_of_links h
  obtain ⟨_, hl, linked⟩ := linked_of_links ho hw h
  cases hl
  refine ⟨⟨minutes, by omega, by omega, by omega⟩, fun d => ?_⟩
  exact ⟨window_toward_of_links h d, linked.cut d, linked.order d⟩

end PageRequest

/-! A page of arrivals that lost its early rides at a cut in front of its window, under the longest
of bounds and without any steps -/

section longBounds

def longBounds : PagingPreferences := ⟨90, 153722867280912, []⟩

def earlyCut : PageRequest where
  order := .streetAndDeparture
  arriveBy := true
  count := 1
  opens := some (.ofMinutes 480)
  latestArrival := some (.ofMinutes 700)
  window := some (.ofMinutes 60)
  cursor := none

def cutAtSlowRide : CapReport := Cap.report .head 1 slowRide

theorem hands_on_window_earlyCut : ∃ policy l, longBounds.policy = .ok policy ∧
    earlyCut.links policy [slowRide] (some cutAtSlowRide) = .ok (some l) ∧
    (∃ minutes : Int, l.window.nanos = minutes * 60000000000 ∧
      longBounds.minMinutes ≤ minutes ∧ minutes ≤ longBounds.maxMinutes) ∧
    ∀ d, (l.toward d).window = l.window ∧
      (l.toward d).cut = (some cutAtSlowRide).map CapReport.cut ∧
      (l.toward d).order = earlyCut.firstOrder :=
  ⟨_, _, rfl, rfl, PageRequest.hands_on_window (p := longBounds) rfl rfl⟩

end longBounds
end JourneyPages
