import JourneyPages.Proofs.Walk

/-!
Walks onward in time come to an end. A cursor for the later page either leads to a later time, or to
the same time past a cut that lies beyond the last one, so that none is come by twice.
-/
namespace JourneyPages
namespace PageCursor
variable {c c' c'' : PageCursor}

/-- A cursor leads further than another of the same direction and order: to a later time, or to the
same time and past a cut beyond that of the other, if it has one. -/
structure Advances (c c' : PageCursor) : Prop where
  direction : c'.direction = c.direction
  order : c'.order = c.order
  further : c.opens < c'.opens ∨ c'.opens = c.opens ∧
    ∃ cut', c'.cut = some cut' ∧ ∀ cut, c.cut = some cut → c.Passes cut cut'

theorem not_passes_self (c : PageCursor) (cut : SortKey) : ¬ c.Passes cut cut := by
  unfold Passes
  have hself : c.order.compare cut cut = .eq := Std.ReflCmp.compare_self
  cases c.croppedEnd <;> simp [hself]

theorem Passes.trans {cut cut' cut'' : SortKey} (h : c.Passes cut cut')
    (h' : c.Passes cut' cut'') : c.Passes cut cut'' := by
  unfold Passes at *
  cases hend : c.croppedEnd with
  | tail =>
    rw [hend] at h h'
    exact Std.TransCmp.lt_trans h h'
  | head =>
    rw [hend] at h h'
    exact Std.TransCmp.lt_trans h' h

namespace Advances

theorem passes_iff (h : c.Advances c') (cut cut' : SortKey) :
    c'.Passes cut cut' ↔ c.Passes cut cut' := by
  unfold Passes croppedEnd
  rw [h.direction, h.order]

theorem trans (h : c.Advances c') (h' : c'.Advances c'') : c.Advances c'' where
  direction := h'.direction.trans h.direction
  order := h'.order.trans h.order
  further := by
    rcases h.further with hlt | ⟨heq, cut', hcut', hpasses⟩
    · rcases h'.further with hlt' | ⟨heq', -⟩
      · exact .inl (hlt.trans hlt')
      · exact .inl (heq' ▸ hlt)
    · rcases h'.further with hlt' | ⟨heq', cut'', hcut'', hpasses'⟩
      · exact .inl (heq ▸ hlt')
      · refine .inr ⟨heq'.trans heq, cut'', hcut'', fun cut hcut => ?_⟩
        exact (hpasses cut hcut).trans ((h.passes_iff _ _).mp (hpasses' cut' hcut'))

theorem ne (h : c.Advances c') : c ≠ c' := by
  rintro rfl
  rcases h.further with hlt | ⟨-, cut, hcut, hpasses⟩
  · exact lt_irrefl _ hlt
  · exact c.not_passes_self cut (hpasses cut hcut)

end Advances
end PageCursor

namespace SearchRequest
variable {r : SearchRequest} {c : PageCursor} {its : List Itinerary} {p : Preferences}
  {resp : Response} {policy : WindowPolicy} {links : PageLinks}

/-- The next cursor of a page leads further than the one that led to the page. -/
theorem advances_next (transit : ∀ it ∈ its, it.hasTransit)
    (h : (r.withCursor c).Answers its p policy resp) (linked : resp.links = some links)
    (direction : c.direction = .next) (window : Span.minute ≤ c.window) :
    c.Advances links.next := by
  obtain ⟨_, _, ho, hw, hl⟩ := h.linked linked
  cases ho
  cases hw
  refine ⟨(hl.direction .next).trans direction.symm, hl.order .next, ?_⟩
  cases hcap : resp.cap with
  | none =>
    have hopens := hl.opens_of_uncut fun _ => hcap
    have hpos : 0 < c.window.nanos := lt_of_lt_of_le (by decide) (Span.le_iff.mp window)
    left
    rw [Instant.lt_iff, hopens]
    exact Instant.lt_shift_iff.mpr hpos
  | some report =>
    have hopens := hl.opens_of_cut direction hcap
    obtain ⟨it, hkey, -, hsearched, hnot⟩ := exists_ride_of_cut transit h rfl rfl hcap
    have hle := ((searches_iff (r := r.withCursor c) rfl rfl).mp hsearched).1
    have hstart : it.start = report.cut.start := congrArg SortKey.start hkey
    rw [hstart, ← hopens] at hle
    rcases hle.lt_or_eq with hlt | heq
    · exact .inl hlt
    · refine .inr ⟨heq.symm, report.cut, ?_, fun cut hcut => ?_⟩
      · exact (hl.cut .next).trans (by rw [hcap]; rfl)
      · exact hkey ▸ (r.passedOver_withCursor_iff c it).mp hnot cut hcut

end SearchRequest

open SearchRequest

/-- The cursors that a walk onward comes by, each further than all the ones before. -/
theorem exists_pairwise_advances {r : SearchRequest} {c : PageCursor}
    (direction : c.direction = .next) (window : Span.minute ≤ c.window) {n : Nat}
    {pages : List Page}
    (walk : Walk AnswersTransit (r.withCursor c) (List.replicate n .next) pages) :
    ∃ cs, (pages.map fun page => page.response.links.map PageLinks.next) = cs.map some ∧
      (c :: cs).Pairwise PageCursor.Advances := by
  induction n generalizing r c pages with
  | zero =>
    cases walk with
    | stop served =>
      obtain ⟨its, p, transit, -, served⟩ := served
      obtain ⟨policy, h⟩ := answers_of_respond served
      obtain ⟨links, linked⟩ := h.exists_links rfl
      have hstep := advances_next transit h linked direction window
      exact ⟨[links.next], by simp [linked], by simpa using hstep⟩
  | succ n ih =>
    rw [List.replicate_succ] at walk
    cases walk with
    | turn served linked rest =>
      rename_i resp links pages
      obtain ⟨its, p, transit, minutes, served⟩ := served
      obtain ⟨policy, h⟩ := answers_of_respond served
      obtain ⟨_, _, -, -, hl⟩ := h.linked linked
      have hstep := advances_next transit h linked direction window
      obtain ⟨cs, hcs, hpairwise⟩ :=
        ih (hl.direction .next) (minute_le_window minutes h linked .next) rest
      refine ⟨links.next :: cs, by simp [linked, hcs], List.pairwise_cons.mpr ⟨?_, hpairwise⟩⟩
      intro c' hc'
      rcases List.mem_cons.mp hc' with rfl | hc'
      · exact hstep
      · exact hstep.trans ((List.pairwise_cons.mp hpairwise).1 c' hc')

/-- Every cursor has a window of a minute at least, the next cursor of a page leads further than the
one by which the page was reached, and so no next cursor comes twice on a walk onward. -/
theorem next_leads_further {r : SearchRequest} {c : PageCursor} (direction : c.direction = .next)
    (window : Span.minute ≤ c.window) :
    (∀ resp, AnswersTransit (r.withCursor c) resp →
      ∃ links, resp.links = some links ∧ c.Advances links.next) ∧
    (∀ n pages, Walk AnswersTransit (r.withCursor c) (List.replicate n .next) pages →
      (some c :: pages.map fun page => page.response.links.map PageLinks.next).Nodup) ∧
    ∀ (r' : SearchRequest) (resp : Response) (links : PageLinks) (d : PageDirection),
      AnswersTransit r' resp → resp.links = some links → Span.minute ≤ (links.toward d).window := by
  refine ⟨?step, ?run, ?emitted⟩
  case step =>
    rintro resp ⟨its, p, transit, -, served⟩
    obtain ⟨policy, h⟩ := answers_of_respond served
    obtain ⟨links, linked⟩ := h.exists_links rfl
    exact ⟨links, linked, advances_next transit h linked direction window⟩
  case run =>
    intro n pages walk
    obtain ⟨cs, hcs, hpairwise⟩ := exists_pairwise_advances direction window walk
    rw [hcs, ← List.map_cons]
    refine List.Nodup.map (Option.some_injective _) ?_
    exact hpairwise.imp fun h => h.ne
  case emitted =>
    rintro r' resp links d ⟨its, p, -, minutes, served⟩ linked
    obtain ⟨policy, h⟩ := answers_of_respond served
    exact minute_le_window minutes h linked d

/-! Two rides that leave at once, on pages of one: the time stands still, but not the cut -/

section together

def together : SearchRequest := .first false 1 480 60

def towardBoth : PageCursor := .ofMinutes .next .streetAndArrival 480 60 none

def soonerRide : Itinerary := .ride 480 60

def towardSlow : PageCursor := .ofMinutes .next .streetAndArrival 480 40 (some soonerRide.key)

theorem answersTransit_both : ∃ resp links,
    AnswersTransit (together.withCursor towardBoth) resp ∧ resp.links = some links ∧
    links.toward .next = towardSlow := by
  have hoffered : (together.withCursor towardBoth).offered Preferences.bare.filter
      [slowRide, soonerRide] = [soonerRide, slowRide] := by
    rw [offered_bare]
    rfl
  exact ⟨_, _, answersTransit_bare (by decide) hoffered rfl, rfl, by decide +kernel⟩

theorem answersTransit_slow : ∃ resp,
    AnswersTransit ((together.withCursor towardBoth).withCursor towardSlow) resp := by
  have hoffered : ((together.withCursor towardBoth).withCursor towardSlow).offered
      Preferences.bare.filter [slowRide, soonerRide] = [slowRide] := by
    rw [offered_bare]
    rfl
  exact ⟨_, answersTransit_bare (by decide) hoffered rfl⟩

theorem next_leads_further_together : towardBoth.direction = .next ∧
    Span.minute ≤ towardBoth.window ∧
    ∃ resp links pages, AnswersTransit (together.withCursor towardBoth) resp ∧
      resp.links = some links ∧ towardBoth.Advances links.next ∧
      links.next.opens = towardBoth.opens ∧
      Walk AnswersTransit (together.withCursor towardBoth) (List.replicate 1 .next) pages ∧
      (some towardBoth :: pages.map fun page => page.response.links.map PageLinks.next).Nodup := by
  obtain ⟨resp, links, h, hlinks, hnext⟩ := answersTransit_both
  obtain ⟨resp', h'⟩ := answersTransit_slow
  have second := Walk.stop h'
  rw [← hnext] at second
  have walk := Walk.turn h hlinks second
  obtain ⟨hstep, hrun, -⟩ :=
    next_leads_further (r := together) (c := towardBoth) rfl (by decide)
  obtain ⟨links', hlinks', hadvances⟩ := hstep resp h
  cases hlinks.symm.trans hlinks'
  have hopens : links.next.opens = towardSlow.opens := congrArg PageCursor.opens hnext
  exact ⟨rfl, by decide, resp, links, _, h, hlinks, hadvances, hopens, walk, hrun 1 _ walk⟩

end together
end JourneyPages
