import JourneyPages.Paging.Links
import JourneyPages.Proofs.Paging.Window
import JourneyPages.Proofs.Time.Instant

/-!
What a page hands on. Both cursors carry the order and the cut of the page; the later one starts at
the cut or where the window ended, the earlier one its own window before a minute behind the cut or
before where the window began. It ends there, unless the window began in a leap second: the end is
then up to a second late.
-/
namespace JourneyPages

/-- The cursor to the neighbour in a direction. -/
def PageLinks.toward (l : PageLinks) : PageDirection → PageCursor
  | .next => l.next
  | .previous => l.previous

namespace PageRequest

/-- The cut that bounds the neighbour in a direction: a page is cut at the end it goes to. -/
def cutToward (r : PageRequest) (report : Option CapReport) (d : PageDirection) : Option SortKey :=
  if r.direction = d then report.map CapReport.cut else none

/-- The links `l` follow from a page that searched from `opens` for the time `used`. -/
structure Linked (r : PageRequest) (policy : WindowPolicy) (report : Option CapReport)
    (opens : Instant) (used : Span) (l : PageLinks) : Prop where
  direction d : (l.toward d).direction = d
  order d : (l.toward d).order = r.firstOrder
  cut d : (l.toward d).cut = report.map CapReport.cut
  min_le d : policy.min ≤ (l.toward d).window
  next_opens : (r.cutToward report .next).elim (opens.add? used) (fun cut => some cut.start) =
    some l.next.opens
  previous_opens : ((r.cutToward report .previous).elim (some opens)
    fun cut => cut.start.add? Span.minute).bind (·.sub? l.previous.window) = some l.previous.opens

end PageRequest

namespace PageLinker
variable {l : PageLinker} {c : PageCursor}

theorem of_next (h : l.next = .ok c) : c = l.cursor .next c.opens none ∧
    (l.cutBy .next).elim (l.opens.add? l.used) (fun cut => some cut.start) = some c.opens := by
  unfold next at h
  cases hcut : l.cutBy .next with
  | some cut =>
    rw [hcut] at h
    cases h
    exact ⟨rfl, rfl⟩
  | none =>
    rw [hcut] at h
    obtain ⟨opens, hopens, h⟩ := ok_of_bind h
    cases h
    exact ⟨rfl, ok_of_orOutOfRange hopens⟩

theorem of_previous (h : l.previous = .ok c) : c = l.cursor .previous c.opens l.latestArrival ∧
    ((l.cutBy .previous).elim (some l.opens) fun cut => cut.start.add? Span.minute).bind
      (·.sub? l.window) = some c.opens := by
  unfold previous at h
  cases hcut : l.cutBy .previous with
  | some cut =>
    rw [hcut] at h
    obtain ⟨closes, hcloses, h⟩ := ok_of_bind h
    obtain ⟨opens, hopens, h⟩ := ok_of_bind h
    cases h
    exact ⟨rfl, Option.bind_eq_some_iff.mpr
      ⟨closes, ok_of_orOutOfRange hcloses, ok_of_orOutOfRange hopens⟩⟩
  | none =>
    simp only [hcut, pure_bind] at h
    obtain ⟨opens, hopens, h⟩ := ok_of_bind h
    cases h
    exact ⟨rfl, ok_of_orOutOfRange hopens⟩

/-- The earlier page closes at an instant that there is, if this page opened in no leap second. -/
theorem isSome_closes_of_previous (h : l.previous = .ok c) (hleap : ¬ l.opens.IsLeap) :
    (c.opens.add? l.window).isSome := by
  obtain ⟨closes, hcloses, hopens⟩ := Option.bind_eq_some_iff.mp (of_previous h).2
  have heven : ¬ closes.IsLeap := by
    cases hcut : l.cutBy .previous with
    | none =>
      rw [hcut] at hcloses
      cases hcloses
      exact hleap
    | some cut =>
      rw [hcut] at hcloses
      exact Instant.not_isLeap_of_shift (by decide) (Instant.add?_eq_some_iff.mp hcloses)
  have hback := Instant.shift_cancel heven (Instant.sub?_eq_some_iff.mp hopens)
  exact Option.isSome_of_eq_some (Instant.add?_eq_some_iff.mpr hback.2.symm)

end PageLinker

namespace PageRequest
variable {r : PageRequest} {policy : WindowPolicy} {its : List Itinerary}
  {report : Option CapReport} {opens : Instant} {used : Span} {l : PageLinks}

section Linked
variable (hl : r.Linked policy report opens used l)
include hl

theorem Linked.opens_of_cut (hd : r.direction = .next) {cut : CapReport}
    (hcut : report = some cut) : l.next.opens = cut.cut.start := by
  have hopens := hl.next_opens
  rw [cutToward, if_pos hd, hcut] at hopens
  exact (Option.some.inj hopens).symm

theorem Linked.opens_of_uncut (h : r.direction = .next → report = none) :
    l.next.opens.ticks = opens.shift used.nanos := by
  have hopens := hl.next_opens
  have hcut : r.cutToward report .next = none := by
    simpa [cutToward] using h
  rw [hcut] at hopens
  exact Instant.add?_eq_some_iff.mp hopens

/-- The end of an earlier page that was reached over a cut is in no leap second. -/
theorem Linked.exists_end_of_cut (hd : r.direction = .previous) {cut : CapReport}
    (hcut : report = some cut) : ∃ closes : Instant, ¬ closes.IsLeap ∧
      closes.ticks = cut.cut.start.shift 60000000000 ∧
      l.previous.opens.ticks = closes.shift (-l.previous.window.nanos) := by
  have hopens := hl.previous_opens
  rw [cutToward, if_pos hd, hcut] at hopens
  obtain ⟨closes, hcloses, hopens⟩ := Option.bind_eq_some_iff.mp hopens
  have hcloses := Instant.add?_eq_some_iff.mp hcloses
  exact ⟨closes, Instant.not_isLeap_of_shift (by decide) hcloses, hcloses,
    Instant.sub?_eq_some_iff.mp hopens⟩

theorem Linked.closes_of_cut (hd : r.direction = .previous) {cut : CapReport}
    (hcut : report = some cut) : l.previous.opens.shift l.previous.window.nanos =
      cut.cut.start.shift 60000000000 := by
  obtain ⟨closes, hleap, hcloses, hopens⟩ := hl.exists_end_of_cut hd hcut
  exact (Instant.shift_cancel hleap hopens).2.trans hcloses

/-- A window of a minute or more reaches back to the cut. -/
theorem Linked.opens_le_of_cut (hd : r.direction = .previous) {cut : CapReport}
    (hcut : report = some cut) (hminute : 60000000000 ≤ l.previous.window.nanos) :
    l.previous.opens ≤ cut.cut.start := by
  obtain ⟨closes, -, hcloses, hopens⟩ := hl.exists_end_of_cut hd hcut
  exact Instant.le_of_shift_shift_neg hminute hcloses hopens

theorem Linked.previous_opens_of_uncut (h : r.direction = .previous → report = none) :
    l.previous.opens.ticks = opens.shift (-l.previous.window.nanos) := by
  have hopens := hl.previous_opens
  have hcut : r.cutToward report .previous = none := by
    simpa [cutToward] using h
  rw [hcut] at hopens
  exact Instant.sub?_eq_some_iff.mp hopens

/-- Whatever its end, a page on the way back opens in no leap second. -/
theorem Linked.not_isLeap_previous (hminute : 60000000000 ≤ l.previous.window.nanos) :
    ¬ l.previous.opens.IsLeap := by
  obtain ⟨closes, -, hopens⟩ := Option.bind_eq_some_iff.mp hl.previous_opens
  exact Instant.not_isLeap_of_shift (by omega) (Instant.sub?_eq_some_iff.mp hopens)

theorem Linked.closes_of_uncut (h : r.direction = .previous → report = none)
    (hleap : ¬ opens.IsLeap) :
    l.previous.opens.shift l.previous.window.nanos = opens.ticks :=
  (Instant.shift_cancel hleap (hl.previous_opens_of_uncut h)).2

end Linked

/-- Cut or not, the next search gets a window that the policy gives. -/
theorem gives_nextWindow (r : PageRequest) (policy : WindowPolicy) (opens : Instant)
    (used : Span) (its : List Itinerary) (report : Option CapReport) :
    policy.Gives (r.nextWindow policy opens used its report) := by
  cases report with
  | none => exact policy.gives_grow _ _ _
  | some report => exact policy.gives_shrink _ _ _ _

theorem exists_opens_of_validate (hw : r.window = some used) (h : r.validate = .ok ()) :
    ∃ opens, r.opens = some opens := by
  cases ho : r.opens with
  | none =>
    simp only [validate, ho, hw] at h
    cases h
  | some opens => exact ⟨opens, rfl⟩

theorem links_of_window_eq_none (hw : r.window = none) {links : Option PageLinks}
    (h : r.links policy its report = .ok links) : links = none := by
  obtain ⟨-, -, h⟩ := ok_of_bind h
  rw [hw] at h
  cases h
  rfl

/-- The metadata of a page. -/
def metadata (r : PageRequest) (report : Option CapReport) (opens : Instant) (used : Span) :
    Except PagingError SearchMetadata :=
  let cut := report.map fun report => report.cut.start
  if r.arriveBy then SearchMetadata.forArrival used opens cut
  else SearchMetadata.forDeparture used opens cut

/-- The links of a page, given the window for the next search. -/
def linksOver (r : PageRequest) (report : Option CapReport) (opens : Instant)
    (used window : Span) : Except PagingError PageLinks := do
  let linker : PageLinker :=
    ⟨r.firstOrder, r.direction, opens, r.latestArrival, used, window, report.map CapReport.cut⟩
  let metadata ← r.metadata report opens used
  let next ← linker.next
  let previous ← linker.previous
  pure ⟨window, next, previous, metadata⟩

/-- The itineraries of a page have a say in the window for the next search only. -/
theorem links_eq (ho : r.opens = some opens) (hw : r.window = some used) :
    r.links policy its report = (do
      r.validate
      let l ← r.linksOver report opens used (r.nextWindow policy opens used its report)
      pure (some l)) := by
  simp only [links, ho, hw, linksOver, metadata, bind_assoc, pure_bind, Option.map_map]
  cases r.arriveBy <;> rfl

theorem linksOver_of_links (ho : r.opens = some opens) (hw : r.window = some used)
    {links : Option PageLinks} (h : r.links policy its report = .ok links) :
    ∃ l, links = some l ∧
      r.linksOver report opens used (r.nextWindow policy opens used its report) = .ok l := by
  rw [links_eq ho hw] at h
  obtain ⟨-, -, h⟩ := ok_of_bind h
  obtain ⟨l, hl, h⟩ := ok_of_bind h
  cases h
  exact ⟨l, rfl, hl⟩

/-- The links tell the window for the next search. -/
theorem window_of_links (ho : r.opens = some opens) (hw : r.window = some used)
    {links : Option PageLinks} (h : r.links policy its report = .ok links) :
    links.map PageLinks.window = some (r.nextWindow policy opens used its report) := by
  obtain ⟨l, hlinks, h⟩ := linksOver_of_links ho hw h
  obtain ⟨metadata, -, h⟩ := ok_of_bind h
  obtain ⟨next, -, h⟩ := ok_of_bind h
  obtain ⟨previous, -, h⟩ := ok_of_bind h
  cases h
  rw [hlinks]
  rfl

/-- The itineraries matter only as far as they let the window of a page grow that was not cut. -/
theorem links_congr {its' : List Itinerary}
    (h : report = none → ∀ used, r.window = some used →
      policy.grow used r.count (transitFound its) = policy.grow used r.count (transitFound its')) :
    r.links policy its report = r.links policy its' report := by
  cases hw : r.window with
  | none => simp only [links, hw]
  | some used =>
    cases ho : r.opens with
    | none => simp only [links, hw, ho]
    | some opens =>
      have hwindow : r.nextWindow policy opens used its report =
          r.nextWindow policy opens used its' report := by
        cases report with
        | some report => rfl
        | none => exact h rfl used hw
      rw [links_eq ho hw, links_eq ho hw, hwindow]

theorem linked_of_links (ho : r.opens = some opens) (hw : r.window = some used)
    {links : Option PageLinks} (h : r.links policy its report = .ok links) :
    ∃ l, links = some l ∧ r.Linked policy report opens used l := by
  obtain ⟨l, hlinks, h⟩ := linksOver_of_links ho hw h
  obtain ⟨metadata, -, h⟩ := ok_of_bind h
  obtain ⟨next, hnext, h⟩ := ok_of_bind h
  obtain ⟨previous, hprevious, h⟩ := ok_of_bind h
  cases h
  refine ⟨_, hlinks, ?_⟩
  obtain ⟨hn, hopens⟩ := PageLinker.of_next hnext
  obtain ⟨hp, hback⟩ := PageLinker.of_previous hprevious
  have hmin := (r.gives_nextWindow policy opens used its report).min_le
  rw [hn, hp]
  constructor
  case direction | order | cut | min_le =>
    intro d
    cases d <;> first | rfl | exact hmin
  case next_opens => exact hopens
  case previous_opens => exact hback

end PageRequest
end JourneyPages
