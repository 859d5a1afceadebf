import JourneyPages.Proofs.Walk

/-!
Two pages side by side. Either their windows are disjoint, or the second page passes over what the
first one has shown; both are settled by the cursor between them, so it does not matter what the
second search finds or how else its request differs. The one exception is a page that opens in a
leap second and was not cut at that end: the page before it closes up to a second too late, and
shows again what departs by then.
-/
namespace JourneyPages
namespace SearchRequest
variable {r : SearchRequest} {p : Preferences} {its : List Itinerary} {resp : Response}

theorem searches_withCursor (r r' : SearchRequest) (c : PageCursor) (t : Instant) :
    (r'.withCursor c).searches t = (r.withCursor c).searches t := rfl

theorem passedOver_withCursor (r r' : SearchRequest) (c : PageCursor) (it : Itinerary) :
    (r'.withCursor c).passedOver it = (r.withCursor c).passedOver it := rfl

/-- Itineraries of one key are passed over alike. -/
theorem passedOver_congr {it other : Itinerary} (h : other.key = it.key) :
    r.passedOver other = r.passedOver it := by
  simp only [passedOver, Flagger.rejectsAlone, h]

/-- Transit on a page departs in its window and was not passed over. -/
theorem Answers.searches_of_mem {policy : WindowPolicy} {opens : Instant} {used : Span}
    {it : Itinerary} (h : r.Answers its p policy resp) (debug : p.filter.debug = .off)
    (ho : r.opens = some opens) (hw : r.window = some used) (hit : it ∈ resp.itineraries)
    (transit : it.hasTransit) : r.searches it.start ∧ r.passedOver it = false := by
  rw [h.itineraries debug] at hit
  exact searches_of_mem_offered ho hw h.valid (Cap.mem_of_mem_crop_snd _ hit) transit

/-- Both a page and its neighbour in a direction search for departures at this time: the neighbour
is the page before it, the page was not cut on that side, and the time is in the second from the
leap second on in which its window opens. -/
structure SearchedTwice (r : SearchRequest) (report : Option CapReport) (d : PageDirection)
    (t : Instant) : Prop where
  back : d = .previous
  uncut : r.page.direction = d → report = none
  leap : ∃ opens, r.opens = some opens ∧ opens.IsLeap ∧ t.ticks < opens.ticks + 1000000000

/-- What the window of a neighbour takes in for the first time and its cut does not pass over has
another key than all transit on the page. -/
theorem Answers.key_ne_of_neighbour {policy : WindowPolicy} {opens : Instant} {used : Span}
    {links : PageLinks} {d : PageDirection} {it other : Itinerary}
    (h : r.Answers its p policy resp) (debug : p.filter.debug = .off)
    (ho : r.opens = some opens) (hw : r.window = some used)
    (hl : r.page.Linked policy resp.cap opens used links)
    (hit : it ∈ resp.itineraries) (transit : it.hasTransit)
    (once : ¬ r.SearchedTwice resp.cap d it.start)
    (hsearched : (r.withCursor (links.toward d)).searches other.start)
    (hnot : (r.withCursor (links.toward d)).passedOver other = false) : other.key ≠ it.key := by
  intro hkey
  by_cases huncut : r.page.direction = d → resp.cap = none
  · have hdeparts := (h.searches_of_mem debug ho hw hit transit).1
    have hstart : other.start = it.start := congrArg SortKey.start hkey
    rw [hstart] at hsearched
    obtain ⟨hback, hleap, hlt⟩ :=
      isLeap_of_searches_of_uncut hl d ho hw huncut hdeparts hsearched
    exact once ⟨hback, huncut, opens, ho, hleap, hlt⟩
  · obtain ⟨rfl, hcap⟩ := Classical.not_imp.mp huncut
    obtain ⟨report, hcap⟩ := Option.ne_none_iff_exists'.mp hcap
    have hpassed := passedOver_of_shown debug h hl hcap hit
    rw [← passedOver_congr hkey, hnot] at hpassed
    cases hpassed

/-- Two pages side by side have no ride in common, not even two of one key, whatever is asked for
and found on the second one, unless the ride departs when both of them search. -/
theorem key_ne_of_neighbours {used : Span} (debug : p.filter.debug = .off)
    (hw : r.window = some used) (h : r.respond its p [] = .ok resp) :
    ∃ links, resp.links = some links ∧ ∀ (d : PageDirection) (r' : SearchRequest)
      (its' : List Itinerary) (p' : Preferences) (resp' : Response), p'.filter.debug = .off →
      (r'.withCursor (links.toward d)).respond its' p' [] = .ok resp' →
      ∀ it ∈ resp.itineraries, it.hasTransit → ¬ r.SearchedTwice resp.cap d it.start →
        ∀ other ∈ resp'.itineraries, other.key ≠ it.key := by
  obtain ⟨policy, hanswers⟩ := answers_of_respond h
  obtain ⟨links, hlinks⟩ := hanswers.exists_links hw
  obtain ⟨opens, used, ho, hw, hlinked⟩ := hanswers.linked hlinks
  refine ⟨links, hlinks, ?_⟩
  intro d r' its' p' resp' debug' h' it hit transit once other hother hkey
  obtain ⟨policy', hanswers'⟩ := answers_of_respond h'
  have transit' : other.hasTransit := by
    simpa [Itinerary.key, Itinerary.isStreetOnly, transit] using congrArg SortKey.streetOnly hkey
  obtain ⟨hsearched, hnot⟩ := hanswers'.searches_of_mem debug' rfl rfl hother transit'
  rw [searches_withCursor r] at hsearched
  rw [passedOver_withCursor r] at hnot
  exact hanswers.key_ne_of_neighbour debug ho hw hlinked hit transit once hsearched hnot hkey

end SearchRequest

/-! A page of a stroll and a ride, cut in front of the slow ride; the next search, by arrival time
and for more itineraries, finds the first two again -/

section stroll
open SearchRequest

def strollSearch : SearchRequest := .first false 2 480 120

def afterStroll : PageCursor := .ofMinutes .next .streetAndArrival 540 60 (some fastRide.key)

def longRide : Itinerary := .ride 560 100

theorem respond_strollSearch : ∃ resp links,
    strollSearch.respond [slowRide, stroll, fastRide] .bare [] = .ok resp ∧
    resp.links = some links ∧ links.toward .next = afterStroll ∧
    resp.itineraries = [stroll, fastRide] := by
  have hoffered : strollSearch.offered Preferences.bare.filter [slowRide, stroll, fastRide] =
      [stroll, fastRide, slowRide] := by
    rw [offered_bare]
    rfl
  rw [respond_eq_paged strollSearch rfl, hoffered]
  exact ⟨_, _, rfl, rfl, rfl, rfl⟩

theorem respond_afterStroll : ∃ resp,
    ((SearchRequest.first true 3 0 0).withCursor afterStroll).respond
      [fastRide, longRide, stroll] .bare [] = .ok resp ∧ resp.itineraries = [longRide] := by
  have hoffered : ((SearchRequest.first true 3 0 0).withCursor afterStroll).offered
      Preferences.bare.filter [fastRide, longRide, stroll] = [longRide] := by
    rw [offered_bare]
    rfl
  rw [respond_eq_paged _ rfl, hoffered]
  exact ⟨_, rfl, rfl⟩

theorem key_ne_of_neighbours_stroll : ∃ resp links resp',
    strollSearch.respond [slowRide, stroll, fastRide] .bare [] = .ok resp ∧
    resp.links = some links ∧
    ((SearchRequest.first true 3 0 0).withCursor (links.toward .next)).respond
      [fastRide, longRide, stroll] .bare [] = .ok resp' ∧
    fastRide ∈ resp.itineraries ∧ fastRide.hasTransit ∧ longRide ∈ resp'.itineraries ∧
    longRide.key ≠ fastRide.key := by
  obtain ⟨resp, links, hresp, hlinks, hnext, hshown⟩ := respond_strollSearch
  obtain ⟨resp', hresp', hshown'⟩ := respond_afterStroll
  obtain ⟨_, hlinks', hne⟩ := key_ne_of_neighbours (p := .bare) rfl rfl hresp
  cases hlinks.symm.trans hlinks'
  rw [← hnext] at hresp'
  have hfast : fastRide ∈ resp.itineraries := by simp [hshown]
  have hlong : longRide ∈ resp'.itineraries := by simp [hshown']
  exact ⟨resp, links, resp', hresp, hlinks, hresp', hfast, by decide, hlong,
    hne .next _ _ .bare resp' rfl hresp' fastRide hfast (by decide)
      (fun twice => nomatch twice.back) longRide hlong⟩

end stroll

/-- The page before the one that opens in a leap second shows the ride of that second again. -/
theorem exists_shared_ride : ¬ ∀ (r : SearchRequest) (its : List Itinerary) (p : Preferences)
    (resp : Response) (links : PageLinks), p.filter.debug = .off → r.window ≠ none →
    r.respond its p [] = .ok resp → resp.links = some links →
    ∀ (d : PageDirection) (r' : SearchRequest) (its' : List Itinerary) (p' : Preferences)
      (resp' : Response), p'.filter.debug = .off →
      (r'.withCursor (links.toward d)).respond its' p' [] = .ok resp' →
      ∀ it ∈ resp.itineraries, it.hasTransit → it ∉ resp'.itineraries := by
  intro hall
  obtain ⟨resp, links, h, hlinks, hprevious, hshown⟩ := searches_leapArrival
  obtain ⟨resp', h', hshown'⟩ := searches_beforeLeap
  rw [← hprevious] at h'
  refine hall leapArrival _ .bare resp links rfl (by decide) h hlinks .previous leapArrival _ .bare
    resp' rfl h' leapRide ?_ (by decide) ?_
  · simp [hshown]
  · simp [hshown']

end JourneyPages
