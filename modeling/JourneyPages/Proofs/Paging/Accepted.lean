import JourneyPages.Proofs.Paging.Links
import JourneyPages.Proofs.Paging.Token
import JourneyPages.Proofs.Trip.Order

/-!
Which cursors of a page can be followed. A cursor is handed out if the window it leads to opens at
an instant that there is; it is taken back if there are the instants a window ahead of that and a
window behind it as well. The earlier page closes at an instant that there is in any case, but for
one that closes behind the last leap second of all, so it is only far into the past, or with the
later page far into the future, that the two differ.
-/
namespace JourneyPages
namespace PageRequest
variable {r : PageRequest} {policy : WindowPolicy} {its : List Itinerary}
  {report : Option CapReport} {opens : Instant} {l : PageLinks}

/-- A page with links searched a window. -/
theorem exists_window_of_links (h : r.links policy its report = .ok (some l)) :
    ∃ opens used, r.opens = some opens ∧ r.window = some used := by
  obtain ⟨⟨⟩, hvalid, -⟩ := ok_of_bind h
  cases hw : r.window with
  | none => cases links_of_window_eq_none hw h
  | some used =>
    obtain ⟨opens, ho⟩ := exists_opens_of_validate hw hvalid
    exact ⟨opens, used, ho, rfl⟩

/-- Both cursors lead to the window for the next search, and that of the earlier page closes at an
instant that there is. -/
theorem window_toward {used window : Span}
    (h : r.linksOver report opens used window = .ok l) (d : PageDirection) :
    (l.toward d).window = window ∧ (d = .previous → ¬ opens.IsLeap →
      ((l.toward d).opens.add? (l.toward d).window).isSome) := by
  obtain ⟨metadata, -, h⟩ := ok_of_bind h
  obtain ⟨next, hnext, h⟩ := ok_of_bind h
  obtain ⟨previous, hprevious, h⟩ := ok_of_bind h
  cases h
  obtain ⟨hn, -⟩ := PageLinker.of_next hnext
  obtain ⟨hp, -⟩ := PageLinker.of_previous hprevious
  cases d with
  | next => exact ⟨congrArg PageCursor.window hn, fun hd => nomatch hd⟩
  | previous =>
    have hwindow : previous.window = window := congrArg PageCursor.window hp
    refine ⟨hwindow, fun _ hleap => ?_⟩
    show (previous.opens.add? previous.window).isSome
    rw [hwindow]
    exact PageLinker.isSome_closes_of_previous hprevious hleap

/-- A cursor that is handed out fits into a token, but for the reach of its window. -/
theorem travels_iff_reachable (hpolicy : policy.InMinutes) (ho : r.opens = some opens)
    (h : r.links policy its report = .ok (some l)) (d : PageDirection) :
    (l.toward d).Travels ↔ ((l.toward d).opens.sub? (l.toward d).window).isSome ∧
      (d = .next ∨ opens.IsLeap → ((l.toward d).opens.add? (l.toward d).window).isSome) := by
  obtain ⟨_, used, -, hw⟩ := exists_window_of_links h
  obtain ⟨_, hl, hover⟩ := linksOver_of_links ho hw h
  cases hl
  obtain ⟨hwindow, hprevious⟩ := window_toward hover d
  constructor
  · intro htravels
    have hreach := htravels.reachable
    rw [PageCursor.reachable, Bool.and_eq_true] at hreach
    exact ⟨hreach.2, fun _ => hreach.1⟩
  · rintro ⟨hsub, hnext⟩
    have hgives := r.gives_nextWindow policy opens used its report
    have hmin := hgives.min_le
    have hwhole := hpolicy.of_gives hgives
    rw [← hwindow] at hmin hwhole
    refine ⟨hpolicy.zero_le.trans hmin, Dvd.dvd.trans (by decide) hwhole, ?_⟩
    rw [PageCursor.reachable, Bool.and_eq_true]
    refine ⟨?_, hsub⟩
    by_cases hleap : opens.IsLeap
    · exact hnext (.inr hleap)
    · cases d with
      | next => exact hnext (.inl rfl)
      | previous => exact hprevious rfl hleap

/-- A cursor is read back from its token, and leads to a request that keeps the paging contract,
exactly if there is an instant a window ahead of where its page opens and, for the later page, one
where it closes. The earlier page of one that opens in a leap second needs this as well. -/
theorem followed_iff {p : PagingPreferences} (hp : p.policy = .ok policy)
    (ho : r.opens = some opens) (h : r.links policy its report = .ok (some l))
    (d : PageDirection) :
    (PageCursor.decode (l.toward d).encode = .ok (l.toward d) ∧
        ∀ s : SearchRequest, (s.withCursor (l.toward d)).page.validate = .ok ()) ↔
      ((l.toward d).opens.sub? (l.toward d).window).isSome ∧
        (d = .next ∨ opens.IsLeap →
          ((l.toward d).opens.add? (l.toward d).window).isSome) := by
  rw [← travels_iff_reachable (PagingPreferences.inMinutes_of_policy hp) ho h d]
  constructor
  · rintro ⟨hback, -⟩
    exact PageCursor.travels_of_decode hback
  · intro htravels
    exact ⟨(PageCursor.decode_encode_iff _).mpr htravels,
      PageCursor.validate_withCursor htravels⟩

end PageRequest

/-! The last page but one: its window closes an hour before the last instant, and the next one would
close after it -/

section endOfTime
open PageRequest

def lateNight : PageRequest where
  order := .streetAndArrival
  arriveBy := false
  count := 1
  opens := some ⟨8347104650760000000000, by decide⟩
  latestArrival := none
  window := some (.ofMinutes 60)
  cursor := none

theorem links_lateNight : ∃ policy l, PagingPreferences.standard.policy = .ok policy ∧
    lateNight.links policy [] none = .ok (some l) ∧
    (l.next.opens.add? l.next.window).isSome = false :=
  ⟨_, _, rfl, rfl, rfl⟩

theorem followed_iff_lateNight : ∃ policy opens l,
    PagingPreferences.standard.policy = .ok policy ∧ lateNight.opens = some opens ∧
    lateNight.links policy [] none = .ok (some l) ∧
    ((PageCursor.decode (l.toward .next).encode = .ok (l.toward .next) ∧
        ∀ s : SearchRequest, (s.withCursor (l.toward .next)).page.validate = .ok ()) ↔
      ((l.toward .next).opens.sub? (l.toward .next).window).isSome ∧
        (PageDirection.next = .next ∨ opens.IsLeap →
          ((l.toward .next).opens.add? (l.toward .next).window).isSome)) := by
  obtain ⟨policy, l, hpolicy, hl, -⟩ := links_lateNight
  exact ⟨policy, _, l, hpolicy, rfl, hl, followed_iff hpolicy rfl hl .next⟩

/-- The cursor to the page behind it is handed out, but not taken back. -/
theorem exists_not_followed : ¬ ∀ (p : PagingPreferences) (policy : WindowPolicy)
    (r : PageRequest) (its : List Itinerary) (report : Option CapReport) (l : PageLinks)
    (d : PageDirection), p.policy = .ok policy → r.links policy its report = .ok (some l) →
    PageCursor.decode (l.toward d).encode = .ok (l.toward d) ∧
      ∀ s : SearchRequest, (s.withCursor (l.toward d)).page.validate = .ok () := by
  intro hall
  obtain ⟨policy, l, hpolicy, hl, hcloses⟩ := links_lateNight
  have hback := (hall .standard policy lateNight [] none l .next hpolicy hl).1
  have hreach := (PageCursor.travels_of_decode hback).reachable
  rw [PageCursor.reachable, Bool.and_eq_true] at hreach
  simp only [PageLinks.toward, hcloses] at hreach
  exact absurd hreach.1 (by decide)

end endOfTime
end JourneyPages
