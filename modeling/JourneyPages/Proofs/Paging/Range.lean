import JourneyPages.Proofs.Paging.Links
import JourneyPages.Proofs.Trip.Order

/-!
When a page has no links. Only the range of instants stands in the way of a valid request: a minute
behind the cut has to be in range, and a search by arrival time needs the instant one window before
that as well; and the earlier page has to open at an instant that there is. All other times that
links are made of are in range if the request is valid.
-/
namespace JourneyPages

/-- Nothing else fails than that something would be out of range. -/
def FailsOutOfRange {α : Type} (x : Except PagingError α) : Prop :=
  ∀ e, x = .error e → e = .windowOutOfRange

/-- There is a result if `P` holds, and otherwise something is out of range. -/
structure NeedsRange {α : Type} (P : Prop) (x : Except PagingError α) : Prop where
  ok : P → ∃ a, x = .ok a
  error : ¬ P → x = .error .windowOutOfRange

namespace NeedsRange
variable {α β : Type} {P Q : Prop} {x : Except PagingError α}

theorem pure (a : α) : NeedsRange True (Pure.pure a : Except PagingError α) :=
  ⟨fun _ => ⟨a, rfl⟩, fun h => absurd trivial h⟩

theorem orOutOfRange (x : Option α) : NeedsRange x.isSome (PageLinker.orOutOfRange x) := by
  cases x with
  | none => exact ⟨nofun, fun _ => rfl⟩
  | some a => exact ⟨fun _ => ⟨a, rfl⟩, fun h => absurd rfl h⟩

theorem congr (h : NeedsRange P x) (hPQ : P ↔ Q) : NeedsRange Q x :=
  ⟨fun hQ => h.ok (hPQ.mpr hQ), fun hQ => h.error fun hP => hQ (hPQ.mp hP)⟩

theorem bind {f : α → Except PagingError β} (hx : NeedsRange P x)
    (hf : ∀ a, x = .ok a → NeedsRange Q (f a)) : NeedsRange (P ∧ Q) (x >>= f) := by
  by_cases hP : P
  · obtain ⟨a, ha⟩ := hx.ok hP
    have hrest := hf a ha
    rw [ha]
    exact ⟨fun h => hrest.ok h.2, fun h => hrest.error fun hQ => h ⟨hP, hQ⟩⟩
  · rw [hx.error hP]
    exact ⟨fun h => absurd h.1 hP, fun _ => rfl⟩

theorem failsOutOfRange (h : NeedsRange P x) : FailsOutOfRange x := by
  intro e he
  by_cases hP : P
  · obtain ⟨a, ha⟩ := h.ok hP
    rw [ha] at he
    cases he
  · rw [h.error hP] at he
    cases he
    rfl

end NeedsRange

namespace PageLinker

theorem needsRange_next (l : PageLinker) :
    NeedsRange (l.cutBy .next = none → (l.opens.add? l.used).isSome) l.next := by
  unfold next
  cases l.cutBy .next with
  | none =>
    refine ((NeedsRange.orOutOfRange _).bind fun opens _ => .pure _).congr ?_
    simp
  | some cut => exact (NeedsRange.pure _).congr (by simp)

theorem needsRange_previous (l : PageLinker) :
    NeedsRange (((l.cutBy .previous).elim (some l.opens) fun cut =>
      cut.start.add? Span.minute).bind (·.sub? l.window)).isSome l.previous := by
  unfold previous
  cases l.cutBy .previous with
  | none =>
    refine ((NeedsRange.orOutOfRange _).bind fun opens _ => .pure _).congr ?_
    simp
  | some cut =>
    refine ((NeedsRange.orOutOfRange _).bind (Q := ((cut.start.add? Span.minute).bind
      (·.sub? l.window)).isSome) fun ends hends => ?_).congr ?_
    · rw [ok_of_orOutOfRange hends]
      exact ((NeedsRange.orOutOfRange _).bind fun opens _ => .pure _).congr (by simp)
    · cases hends : cut.start.add? Span.minute <;> simp [hends]

end PageLinker

namespace SearchMetadata
variable (window : Span) (opens : Instant) (cut : Option Instant)

theorem needsRange_forDeparture : NeedsRange ((opens.sub? window).isSome ∧
    (cut.elim (opens.add? window) (·.add? Span.minute)).isSome) (forDeparture window opens cut) := by
  refine ((NeedsRange.orOutOfRange _).bind fun previous _ =>
    (NeedsRange.orOutOfRange _).bind fun next _ => .pure _).congr ?_
  cases cut <;> simp

theorem needsRange_forArrival : NeedsRange
    (((cut.elim (some opens) (·.add? Span.minute)).bind (·.sub? window)).isSome ∧
      (opens.add? window).isSome) (forArrival window opens cut) := by
  refine ((NeedsRange.orOutOfRange _).bind fun previous _ =>
    (NeedsRange.orOutOfRange _).bind fun next _ => .pure _).congr ?_
  cases cut <;> simp

end SearchMetadata

namespace PageRequest
variable {r : PageRequest} {policy : WindowPolicy} {its : List Itinerary}
  {report : Option CapReport} {opens : Instant} {used : Span}

/-- The times that the links of a page are made of and that its request does not vouch for: a minute
behind the cut, one window before that in a search by arrival time, and the start of the earlier
page, if `window` is the one for the next search. -/
structure WithinTime (r : PageRequest) (report : Option CapReport) (opens : Instant)
    (used window : Span) : Prop where
  behindCut : ∀ cut ∈ report, (cut.cut.start.add? Span.minute).isSome
  earlierSearch : ∀ cut ∈ report, r.arriveBy →
    ((cut.cut.start.add? Span.minute).bind (·.sub? used)).isSome
  earlierPage : (((r.cutToward report .previous).elim (some opens) fun cut =>
    cut.start.add? Span.minute).bind (·.sub? window)).isSome

/-- A valid request vouches for its window, ahead of its start and as far behind it. -/
theorem reachable_of_validate (ho : r.opens = some opens) (hw : r.window = some used)
    (hv : r.validate = .ok ()) : (opens.add? used).isSome ∧ (opens.sub? used).isSome := by
  simp only [validate, ho, hw] at hv
  split at hv
  case isTrue => cases hv
  case isFalse h =>
    rw [not_or, Bool.not_eq_false, PageCursor.reachable, Bool.and_eq_true] at h
    exact h.2

theorem needsRange_metadata (hahead : (opens.add? used).isSome)
    (hbehind : (opens.sub? used).isSome) :
    NeedsRange ((∀ cut ∈ report, (cut.cut.start.add? Span.minute).isSome) ∧
      ∀ cut ∈ report, r.arriveBy → ((cut.cut.start.add? Span.minute).bind (·.sub? used)).isSome)
      (r.metadata report opens used) := by
  unfold metadata
  cases r.arriveBy with
  | true =>
    refine (SearchMetadata.needsRange_forArrival _ _ _).congr ?_
    cases report with
    | none => simp [hahead, hbehind]
    | some cut =>
      cases hcut : cut.cut.start.add? Span.minute <;> simp [hahead, hcut]
  | false =>
    refine (SearchMetadata.needsRange_forDeparture _ _ _).congr ?_
    cases report <;> simp [hahead, hbehind]

theorem needsRange_linksOver {window : Span} (hahead : (opens.add? used).isSome)
    (hbehind : (opens.sub? used).isSome) :
    NeedsRange (r.WithinTime report opens used window)
      (r.linksOver report opens used window) := by
  refine ((needsRange_metadata hahead hbehind).bind fun metadata _ =>
    (PageLinker.needsRange_next _).bind fun next _ =>
      (PageLinker.needsRange_previous _).bind fun previous _ => .pure _).congr ?_
  constructor
  · rintro ⟨⟨hcut, hearlier⟩, -, hpage, -⟩
    exact ⟨hcut, hearlier, hpage⟩
  · rintro ⟨hcut, hearlier, hpage⟩
    exact ⟨⟨hcut, hearlier⟩, fun _ => hahead, hpage, trivial⟩

theorem needsRange_links (ho : r.opens = some opens) (hw : r.window = some used)
    (hv : r.validate = .ok ()) (policy : WindowPolicy) (its : List Itinerary)
    (report : Option CapReport) :
    NeedsRange (r.WithinTime report opens used (r.nextWindow policy opens used its report))
      (r.links policy its report) := by
  obtain ⟨hahead, hbehind⟩ := reachable_of_validate ho hw hv
  rw [links_eq ho hw, hv]
  refine ((NeedsRange.pure ()).bind fun _ _ =>
    (needsRange_linksOver hahead hbehind).bind fun l _ => .pure (some l)).congr ?_
  simp

/-- A valid request has links unless one of them would be out of range. -/
theorem failsOutOfRange_links (h : r.validate = .ok ()) (policy : WindowPolicy)
    (its : List Itinerary) (report : Option CapReport) :
    FailsOutOfRange (r.links policy its report) := by
  cases hw : r.window with
  | none =>
    simp only [links, h, hw]
    exact (NeedsRange.pure none).failsOutOfRange
  | some used =>
    obtain ⟨opens, ho⟩ := exists_opens_of_validate hw h
    exact (needsRange_links ho hw h policy its report).failsOutOfRange

/-- A valid request with a window fails for one reason only, exactly if one of three times is not
in range, and otherwise has all of its links. -/
theorem links_error_iff (ho : r.opens = some opens) (hw : r.window = some used)
    (hv : r.validate = .ok ()) (policy : WindowPolicy) (its : List Itinerary)
    (report : Option CapReport) :
    (∀ e, r.links policy its report = .error e ↔ e = .windowOutOfRange ∧
      ¬ r.WithinTime report opens used (r.nextWindow policy opens used its report)) ∧
    ((∃ l, r.links policy its report = .ok (some l)) ↔
      r.WithinTime report opens used (r.nextWindow policy opens used its report)) := by
  have hlinks := needsRange_links ho hw hv policy its report
  by_cases htime :
      r.WithinTime report opens used (r.nextWindow policy opens used its report)
  · obtain ⟨links, hok⟩ := hlinks.ok htime
    obtain ⟨l, rfl, -⟩ := linksOver_of_links ho hw hok
    exact ⟨fun e => by simp [hok, htime], by simp [hok, htime]⟩
  · have herror := hlinks.error htime
    exact ⟨fun e => by simp [herror, htime, eq_comm], by simp [herror, htime]⟩

end PageRequest

/-! A page of arrivals that lost its early rides at a cut in the last minute there is -/

section lastMinute

/-- Half a minute before the last instant. -/
def lastMinute : Instant := ⟨8347104658048999999999, by decide⟩

def lateArrivals : PageRequest where
  order := .streetAndDeparture
  arriveBy := true
  count := 1
  opens := some ⟨8347104650150000000000, by decide⟩
  latestArrival := some lastMinute
  window := some (.ofMinutes 60)
  cursor := none

def cutInLastMinute : CapReport where
  cut := { slowRide.key with start := lastMinute, finish := lastMinute }
  removedFromHead := 0
  removedFromTail := 1
  croppedEnd := .tail

theorem links_error_iff_lateArrivals : ∃ policy opens,
    PagingPreferences.standard.policy = .ok policy ∧ lateArrivals.opens = some opens ∧
    lateArrivals.window = some (.ofMinutes 60) ∧ lateArrivals.validate = .ok () ∧
    (∀ e, lateArrivals.links policy [] (some cutInLastMinute) = .error e ↔
      e = .windowOutOfRange ∧ ¬ lateArrivals.WithinTime (some cutInLastMinute) opens
        (.ofMinutes 60) (lateArrivals.nextWindow policy opens (.ofMinutes 60) []
          (some cutInLastMinute))) ∧
    ((∃ l, lateArrivals.links policy [] (some cutInLastMinute) = .ok (some l)) ↔
      lateArrivals.WithinTime (some cutInLastMinute) opens (.ofMinutes 60)
        (lateArrivals.nextWindow policy opens (.ofMinutes 60) [] (some cutInLastMinute))) :=
  ⟨_, _, rfl, rfl, rfl, rfl, PageRequest.links_error_iff rfl rfl rfl _ [] _⟩

end lastMinute
end JourneyPages
