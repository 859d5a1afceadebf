import JourneyPages.Proofs.Walk

/-!
What the metadata of a page makes of its cut. A cursor goes on from the cut only on the side where
the page was cut; the metadata does so on the side to which a first search would go on, wherever
the page was cut. The two agree on pages that go the way of a first one.
-/
namespace JourneyPages

namespace SearchMetadata
variable {used : Span} {opens : Instant} {cut : Option Instant} {m : SearchMetadata}

theorem next_of_forDeparture (h : forDeparture used opens cut = .ok m) :
    cut.elim (opens.add? used) (·.add? Span.minute) = some m.next := by
  obtain ⟨previous, -, h⟩ := ok_of_bind h
  obtain ⟨next, hnext, h⟩ := ok_of_bind h
  cases h
  have hnext := ok_of_orOutOfRange hnext
  cases cut with
  | none => exact hnext
  | some t => exact hnext

theorem previous_of_forArrival (h : forArrival used opens cut = .ok m) :
    (cut.elim (some opens) (·.add? Span.minute)).bind (·.sub? used) = some m.previous := by
  obtain ⟨previous, hprevious, h⟩ := ok_of_bind h
  obtain ⟨next, -, h⟩ := ok_of_bind h
  cases h
  have hprevious := ok_of_orOutOfRange hprevious
  cases cut with
  | none => exact hprevious
  | some t => exact hprevious

end SearchMetadata

namespace PageRequest
variable {r : PageRequest} {policy : WindowPolicy} {its : List Itinerary}
  {report : Option CapReport} {opens : Instant} {used : Span}

/-- The direction in which a search goes on in time: to later departures, or to earlier ones if it
is a search by arrival time. -/
def onward (r : PageRequest) : PageDirection := if r.arriveBy then .previous else .next

/-- When a search by arrival time is to start that goes on from where the window began, or one by
departure time that goes on from where it ended. -/
def fromEdge? (r : PageRequest) (opens : Instant) (used : Span) : Option Instant :=
  if r.arriveBy then opens.sub? used else opens.add? used

/-- When a search is to start that goes on a minute behind the cut. -/
def fromCut? (r : PageRequest) (cut : SortKey) (used : Span) : Option Instant :=
  if r.arriveBy then (cut.start.add? Span.minute).bind (·.sub? used)
  else cut.start.add? Span.minute

/-- The metadata says to go on from a minute behind the cut if the page was cut on the side where
its search goes on, and from the edge of the window if not. -/
def FollowsCut (r : PageRequest) (report : Option CapReport) (opens : Instant) (used : Span)
    (m : SearchMetadata) : Prop :=
  some (if r.arriveBy then m.previous else m.next) =
    (r.cutToward report r.onward).elim (r.fromEdge? opens used) fun cut => r.fromCut? cut used

/-- The metadata goes on from any cut, on whichever side it is. -/
theorem followsCut_iff_of_metadata {m : SearchMetadata}
    (h : r.metadata report opens used = .ok m) :
    r.FollowsCut report opens used m ↔ ∀ cut, report = some cut →
      r.direction = r.onward ∨ r.fromCut? cut.cut used = r.fromEdge? opens used := by
  have hsaid : some (if r.arriveBy then m.previous else m.next) =
      report.elim (r.fromEdge? opens used) fun cut => r.fromCut? cut.cut used := by
    unfold metadata at h
    unfold fromEdge? fromCut?
    cases hby : r.arriveBy with
    | true =>
      rw [hby] at h
      exact (SearchMetadata.previous_of_forArrival h).symm.trans (by cases report <;> rfl)
    | false =>
      rw [hby] at h
      exact (SearchMetadata.next_of_forDeparture h).symm.trans (by cases report <;> rfl)
  rw [FollowsCut, hsaid]
  cases report with
  | none => simp [cutToward]
  | some cut =>
    by_cases hd : r.direction = r.onward
    · simp [cutToward, hd]
    · simp [cutToward, hd]

/-- The metadata follows the side that was cut exactly if the page was not cut, or goes the way of
its search, or was cut where going on from the cut comes to the same as going on from the edge. -/
theorem followsCut_iff {links : Option PageLinks} (hw : r.window = some used)
    (h : r.links policy its report = .ok links) : ∃ opens l, r.opens = some opens ∧
      links = some l ∧ (r.FollowsCut report opens used l.metadata ↔ ∀ cut, report = some cut →
        r.direction = r.onward ∨ r.fromCut? cut.cut used = r.fromEdge? opens used) := by
  obtain ⟨⟨⟩, hvalid, -⟩ := ok_of_bind h
  obtain ⟨opens, ho⟩ := exists_opens_of_validate hw hvalid
  obtain ⟨l, hl, hover⟩ := linksOver_of_links ho hw h
  obtain ⟨metadata, hmetadata, hover⟩ := ok_of_bind hover
  obtain ⟨next, -, hover⟩ := ok_of_bind hover
  obtain ⟨previous, -, hover⟩ := ok_of_bind hover
  cases hover
  exact ⟨opens, _, ho, hl, followsCut_iff_of_metadata hmetadata⟩

end PageRequest

/-! A page on the way back of a search by departure time, cut where earlier rides were dropped -/

section wayBack
open PageRequest

/-- The hour before eight, searched from a page that starts at eight. -/
def wayBack : PageRequest where
  order := .streetAndArrival
  arriveBy := false
  count := 1
  opens := some (.ofMinutes 420)
  latestArrival := none
  window := some (.ofMinutes 60)
  cursor := some (.ofMinutes .previous .streetAndArrival 420 60 none)

def wayBackPolicy : WindowPolicy := ⟨.ofMinutes 40, .ofMinutes 1440, [], by decide⟩

/-- The last ride of that hour. -/
def lastRide : Itinerary := .ride 450 30

theorem links_wayBack : ∃ l,
    wayBack.links wayBackPolicy [lastRide] (some (Cap.report .head 1 lastRide)) = .ok (some l) ∧
    l.metadata.next = .ofMinutes 451 := ⟨_, rfl, rfl⟩

theorem followsCut_iff_wayBack : ∃ opens l, wayBack.opens = some opens ∧
    wayBack.window = some (.ofMinutes 60) ∧
    wayBack.links wayBackPolicy [lastRide] (some (Cap.report .head 1 lastRide)) = .ok (some l) ∧
    (wayBack.FollowsCut (some (Cap.report .head 1 lastRide)) opens (.ofMinutes 60) l.metadata ↔
      ∀ cut, some (Cap.report .head 1 lastRide) = some cut → wayBack.direction = wayBack.onward ∨
        wayBack.fromCut? cut.cut (.ofMinutes 60) = wayBack.fromEdge? opens (.ofMinutes 60)) := by
  obtain ⟨links, hlinks, -⟩ := links_wayBack
  obtain ⟨opens, l, hopens, hl, hiff⟩ := followsCut_iff rfl hlinks
  cases hl
  exact ⟨opens, links, hopens, rfl, hlinks, hiff⟩

/-- The metadata says to look for later rides a minute behind the last one shown, not at eight. -/
theorem exists_not_followsCut : ¬ ∀ (r : PageRequest) (policy : WindowPolicy)
    (its : List Itinerary) (report : Option CapReport) (opens : Instant) (used : Span)
    (l : PageLinks), r.opens = some opens → r.window = some used →
    r.links policy its report = .ok (some l) → r.FollowsCut report opens used l.metadata := by
  intro hall
  obtain ⟨l, hlinks, hnext⟩ := links_wayBack
  have hfollows := hall wayBack _ _ _ _ _ l rfl rfl hlinks
  unfold FollowsCut at hfollows
  rw [if_neg (by decide), hnext] at hfollows
  exact absurd hfollows (by decide)

end wayBack
end JourneyPages
