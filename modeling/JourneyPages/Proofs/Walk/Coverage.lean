import JourneyPages.Proofs.Walk
import Mathlib.Data.List.Chain

/-!
The time that a walk has searched, whichever way it turns. The window of a page is never away from
that of the page it was reached from, and so the windows of all pages make up one interval.
-/
namespace JourneyPages
namespace SearchRequest
variable {r r' : SearchRequest} {lo hi lo' hi' : Int} {t : Instant}

/-- Where the window of a request starts and where it ends. -/
def bounds? (r : SearchRequest) : Option (Int × Int) :=
  r.opens.bind fun opens => r.window.map fun used => (opens.ticks, opens.shift used.nanos)

/-- The windows of the requests overlap or touch. -/
def Meets (r r' : SearchRequest) : Prop :=
  ∃ lo hi lo' hi', r.bounds? = some (lo, hi) ∧ r'.bounds? = some (lo', hi') ∧
    lo ≤ hi' ∧ lo' ≤ hi

theorem searches_iff_of_bounds? (h : r.bounds? = some (lo, hi)) :
    r.searches t ↔ lo ≤ t.ticks ∧ t.ticks < hi := by
  obtain ⟨opens, ho, h⟩ := Option.bind_eq_some_iff.mp h
  obtain ⟨used, hw, h⟩ := Option.map_eq_some_iff.mp h
  cases h
  exact searches_iff ho hw

theorem not_searches_of_bounds?_eq_none (h : r.bounds? = none) : ¬ r.searches t := by
  intro ht
  cases ho : r.opens <;> cases hw : r.window <;> simp_all [bounds?, searches]

/-- What a request searches is an interval in any case, if only an empty one. -/
theorem exists_bounds (r : SearchRequest) : ∃ lo hi : Int,
    (∀ t, r.searches t ↔ lo ≤ t.ticks ∧ t.ticks < hi) ∧
      ∀ lo' hi', r.bounds? = some (lo', hi') → lo = lo' ∧ hi = hi' := by
  cases hbounds : r.bounds? with
  | none =>
    refine ⟨0, 0, fun t => ?_, fun _ _ h => nomatch h⟩
    exact iff_of_false (not_searches_of_bounds?_eq_none hbounds) (by omega)
  | some bounds =>
    obtain ⟨lo, hi⟩ := bounds
    refine ⟨lo, hi, fun t => searches_iff_of_bounds? hbounds, fun _ _ h => ?_⟩
    cases h
    exact ⟨rfl, rfl⟩

/-! One step -/

section step
variable {its : List Itinerary} {p : Preferences} {resp : Response} {policy : WindowPolicy}
  {links : PageLinks} (transit : ∀ it ∈ its, it.hasTransit) (minutes : 1 ≤ p.paging.minMinutes)
  (h : r.Answers its p policy resp) (linked : resp.links = some links)
include transit minutes h linked

/-- A page meets both its neighbours: the cut that a neighbour starts from is in the window, and the
minute by which an earlier page reaches over the cut is not more than its own window. -/
theorem meets_neighbour (d : PageDirection) : r.Meets (r.withCursor (links.toward d)) := by
  obtain ⟨opens, used, ho, hw, hl⟩ := h.linked linked
  have hused := (of_validate ho hw h.valid).1
  have hminute : 60000000000 ≤ (links.toward d).window.nanos := minute_le_window minutes h linked d
  have hcloses := Instant.le_shift (t := opens) hused
  have hcloses' := Instant.le_shift (t := (links.toward d).opens) (n := (links.toward d).window.nanos)
    (by omega)
  refine ⟨opens.ticks, opens.shift used.nanos, _, _, by simp [bounds?, ho, hw], rfl, ?_⟩
  by_cases huncut : r.page.direction = d → resp.cap = none
  · cases d with
    | next =>
      have hopens := hl.opens_of_uncut huncut
      simp only [PageLinks.toward] at hcloses' ⊢
      omega
    | previous =>
      simp only [PageLinks.toward] at hminute hcloses' ⊢
      have hopens := hl.previous_opens_of_uncut huncut
      have hbefore := Instant.shift_le (t := opens) (n := -links.previous.window.nanos) (by omega)
      have hends := Instant.shift_of_shift_neg (by omega) hopens
      omega
  · obtain ⟨hd, hcap⟩ := Classical.not_imp.mp huncut
    obtain ⟨report, hcap⟩ := Option.ne_none_iff_exists'.mp hcap
    obtain ⟨hle, hlt⟩ := searches_cut transit h ho hw hcap
    rw [Instant.le_iff] at hle
    cases d with
    | next =>
      rw [PageLinks.toward, hl.opens_of_cut hd hcap]
      rw [PageLinks.toward, hl.opens_of_cut hd hcap] at hcloses'
      omega
    | previous =>
      have hends := hl.closes_of_cut hd hcap
      have hopens := Instant.le_iff.mp (hl.opens_le_of_cut hd hcap hminute)
      have hover := Instant.le_shift (t := report.cut.start) (n := 60000000000) (by decide)
      simp only [PageLinks.toward] at hcloses' ⊢
      omega

end step

end SearchRequest

open SearchRequest

/-- An interval takes up a window that it meets. -/
theorem exists_interval_of_meets {r : SearchRequest} {lo hi : Int}
    (meets : ∀ lo' hi', r.bounds? = some (lo', hi') → lo ≤ hi' ∧ lo' ≤ hi) :
    ∃ low high : Int,
      (∀ t : Instant, (lo ≤ t.ticks ∧ t.ticks < hi) ∨ r.searches t ↔
        low ≤ t.ticks ∧ t.ticks < high) ∧
      ∀ lo' hi', r.bounds? = some (lo', hi') → low ≤ lo' ∧ hi' ≤ high := by
  cases hbounds : r.bounds? with
  | none =>
    refine ⟨lo, hi, fun t => ?_, fun _ _ h => nomatch h⟩
    simp [not_searches_of_bounds?_eq_none hbounds]
  | some bounds =>
    obtain ⟨lo', hi'⟩ := bounds
    obtain ⟨hlo, hhi⟩ := meets lo' hi' hbounds
    refine ⟨min lo lo', max hi hi', fun t => ?_, ?_⟩
    · rw [searches_iff_of_bounds? hbounds]
      omega
    · intro _ _ h
      cases h
      exact ⟨min_le_right _ _, le_max_right _ _⟩

/-- Windows of which each meets the one in front make up an interval, along with any interval around
the first. -/
theorem exists_interval_of_isChain {page : Page} {pages : List Page} {lo hi : Int}
    (chain : (page :: pages).IsChain fun a b => a.request.Meets b.request)
    (around : ∀ lo' hi', page.request.bounds? = some (lo', hi') → lo ≤ lo' ∧ hi' ≤ hi) :
    ∃ low high : Int, ∀ t : Instant,
      (lo ≤ t.ticks ∧ t.ticks < hi) ∨ (∃ a ∈ pages, a.request.searches t) ↔
        low ≤ t.ticks ∧ t.ticks < high := by
  induction pages generalizing page lo hi with
  | nil => exact ⟨lo, hi, fun t => by simp⟩
  | cons b pages ih =>
    obtain ⟨hmeets, chain⟩ := List.isChain_cons_cons.mp chain
    have hnext : ∀ lo' hi', b.request.bounds? = some (lo', hi') → lo ≤ hi' ∧ lo' ≤ hi := by
      obtain ⟨lo₁, hi₁, lo₂, hi₂, hpage, hb, hbefore, hbehind⟩ := hmeets
      obtain ⟨hlo, hhi⟩ := around lo₁ hi₁ hpage
      intro _ _ h
      cases hb.symm.trans h
      exact ⟨hlo.trans hbefore, hbehind.trans hhi⟩
    obtain ⟨lo', hi', hunion, haround⟩ := exists_interval_of_meets hnext
    obtain ⟨low, high, hall⟩ := ih chain haround
    refine ⟨low, high, fun t => ?_⟩
    rw [← hall t, ← hunion t, or_assoc]
    simp

/-- Each page of a walk meets the one in front. -/
theorem isChain_meets {r : SearchRequest} {ds : List PageDirection} {pages : List Page}
    (walk : Walk AnswersTransit r ds pages) :
    pages.IsChain fun a b => a.request.Meets b.request := by
  induction walk with
  | stop served => exact .singleton _
  | turn served linked rest ih =>
    obtain ⟨its, p, transit, minutes, served⟩ := served
    obtain ⟨policy, h⟩ := answers_of_respond served
    have hmeets := meets_neighbour transit minutes h linked
    cases rest with
    | stop _ => exact .cons_cons (hmeets _) ih
    | turn _ _ _ => exact .cons_cons (hmeets _) ih

/-- Each page of a walk searches a window that overlaps or touches the one it was reached from, and
at no time has the walk left a hole in what it has searched so far. -/
theorem searched_interval {r : SearchRequest} {ds : List PageDirection} {pages : List Page}
    (walk : Walk AnswersTransit r ds pages) :
    (pages.IsChain fun a b => a.request.Meets b.request) ∧
      ∀ n, ∃ lo hi : Int, ∀ t : Instant,
        (∃ page ∈ pages.take n, page.request.searches t) ↔ lo ≤ t.ticks ∧ t.ticks < hi := by
  have hchain := isChain_meets walk
  refine ⟨hchain, fun n => ?_⟩
  have htaken := hchain.take n
  cases hpages : pages.take n with
  | nil => exact ⟨0, 0, fun t => iff_of_false (by simp) (by omega)⟩
  | cons page rest =>
    rw [hpages] at htaken
    obtain ⟨lo', hi', hpage, hbounds⟩ := page.request.exists_bounds
    have around : ∀ low high, page.request.bounds? = some (low, high) → lo' ≤ low ∧ high ≤ hi' := by
      intro low high h
      obtain ⟨rfl, rfl⟩ := hbounds low high h
      exact ⟨le_rfl, le_rfl⟩
    obtain ⟨lo, hi, hall⟩ := exists_interval_of_isChain htaken around
    refine ⟨lo, hi, fun t => ?_⟩
    rw [← hall t, ← hpage t]
    simp

/-! Back to the page in front of the cut, and from there onward again with nothing found -/

section turnaround

def turnaround : SearchRequest := .first true 1 480 120

def backward : PageCursor := .ofMinutes .previous .streetAndDeparture 481 60 (some fastRide.key)

def onward : PageCursor := .ofMinutes .next .streetAndDeparture 541 300 none

theorem answersTransit_turnaround : ∃ resp links, AnswersTransit turnaround resp ∧
    resp.links = some links ∧ links.toward .previous = backward := by
  have hoffered : turnaround.offered Preferences.bare.filter [slowRide, fastRide] =
      [fastRide, slowRide] := by
    rw [offered_bare]
    rfl
  exact ⟨_, _, answersTransit_bare (by decide) hoffered rfl, rfl, by decide +kernel⟩

theorem answersTransit_backward : ∃ resp links,
    AnswersTransit (turnaround.withCursor backward) resp ∧
    resp.links = some links ∧ links.toward .next = onward := by
  have hoffered : (turnaround.withCursor backward).offered Preferences.bare.filter [] = [] := by
    rw [offered_bare]
    rfl
  exact ⟨_, _, answersTransit_bare (by decide) hoffered rfl, rfl, by decide +kernel⟩

theorem answersTransit_onward : ∃ resp,
    AnswersTransit ((turnaround.withCursor backward).withCursor onward) resp := by
  have hoffered : ((turnaround.withCursor backward).withCursor onward).offered
      Preferences.bare.filter [] = [] := by
    rw [offered_bare]
    rfl
  exact ⟨_, answersTransit_bare (by decide) hoffered rfl⟩

theorem searched_interval_turnaround : ∃ pages,
    Walk AnswersTransit turnaround [.previous, .next] pages ∧
    (pages.IsChain fun a b => a.request.Meets b.request) ∧
      ∀ n, ∃ lo hi : Int, ∀ t : Instant,
        (∃ page ∈ pages.take n, page.request.searches t) ↔ lo ≤ t.ticks ∧ t.ticks < hi := by
  obtain ⟨resp₁, links₁, h₁, hlinks₁, hprevious⟩ := answersTransit_turnaround
  obtain ⟨resp₂, links₂, h₂, hlinks₂, hnext⟩ := answersTransit_backward
  obtain ⟨resp₃, h₃⟩ := answersTransit_onward
  have third := Walk.stop h₃
  rw [← hnext] at third
  have second := Walk.turn h₂ hlinks₂ third
  rw [← hprevious] at second
  have walk := Walk.turn h₁ hlinks₁ second
  exact ⟨_, walk, searched_interval walk⟩

end turnaround
end JourneyPages
