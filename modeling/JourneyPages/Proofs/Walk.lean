import JourneyPages.Proofs.Response

/-!
Pages one behind the other. The request for each page but the first is that of the page in front,
moved to one of its cursors; nothing else carries over.
-/
namespace JourneyPages

/-- What was asked and what came back. -/
structure Page where
  request : SearchRequest
  response : Response

def Page.itineraries (page : Page) : List Itinerary := page.response.itineraries

/-- The pages that follow from a request by the given turns. `Serves` says which response a request
may get. -/
inductive Walk (Serves : SearchRequest → Response → Prop) :
    SearchRequest → List PageDirection → List Page → Prop
  | stop {r resp} (served : Serves r resp) : Walk Serves r [] [⟨r, resp⟩]
  | turn {r resp links d ds pages} (served : Serves r resp) (linked : resp.links = some links)
      (rest : Walk Serves (r.withCursor (links.toward d)) ds pages) :
      Walk Serves r (d :: ds) (⟨r, resp⟩ :: pages)

theorem Walk.exists_cons {Serves : SearchRequest → Response → Prop} {r : SearchRequest}
    {ds : List PageDirection} {pages : List Page} (walk : Walk Serves r ds pages) :
    ∃ resp rest, Serves r resp ∧ pages = ⟨r, resp⟩ :: rest := by
  cases walk with
  | stop served => exact ⟨_, _, served, rfl⟩
  | turn served => exact ⟨_, _, served, rfl⟩

/-- Every page is a search in the same timetable, under the same preferences. -/
def Searches (timetable : List Itinerary) (p : Preferences) (r : SearchRequest)
    (resp : Response) : Prop :=
  r.respond (r.found timetable) p [] = .ok resp

/-- Every page is the answer to a search that found transit only, under paging preferences by which
a window takes a minute or more. Nothing else is said about what the searches find. -/
def AnswersTransit (r : SearchRequest) (resp : Response) : Prop :=
  ∃ its p, (∀ it ∈ its, it.hasTransit) ∧ 1 ≤ p.paging.minMinutes ∧ r.respond its p [] = .ok resp

/-- Whether a sort key is beyond another one, in the direction of a cursor: behind it if the page of
the cursor loses the tail of its list, in front of it if that loses the head. -/
def PageCursor.Passes (c : PageCursor) (cut key : SortKey) : Prop :=
  match c.croppedEnd with
  | .tail => c.order.compare cut key = .lt
  | .head => c.order.compare key cut = .lt

/-- A page passes over all but what is beyond the cut of its cursor. -/
theorem SearchRequest.passedOver_withCursor_iff (r : SearchRequest) (c : PageCursor)
    (it : Itinerary) : (r.withCursor c).passedOver it = false ↔
      ∀ cut, c.cut = some cut → c.Passes cut it.key := by
  have hpassed : (r.withCursor c).passedOver it = c.cut.any fun cut =>
      (Flagger.alreadyShown c.order c.croppedEnd.opposite cut).rejectsAlone it := rfl
  rw [hpassed]
  cases c.cut with
  | none => simp
  | some cut =>
    simp only [Option.any_some, Option.some.injEq, forall_eq', PageCursor.Passes]
    cases c.croppedEnd with
    | tail =>
      have hstep : (Flagger.alreadyShown c.order ListEnd.tail.opposite cut).rejectsAlone it =
          (c.order.compare it.key cut).isLE := rfl
      rw [hstep, c.order.compare_swap it.key cut]
      cases c.order.compare it.key cut <;> simp
    | head =>
      have hstep : (Flagger.alreadyShown c.order ListEnd.head.opposite cut).rejectsAlone it =
          (c.order.compare it.key cut).isGE := rfl
      rw [hstep]
      cases c.order.compare it.key cut <;> simp

/-! A page and its neighbour in the direction of the page -/

namespace SearchRequest
variable {timetable its : List Itinerary} {p : Preferences} {r : SearchRequest} {resp : Response}
  {policy : WindowPolicy} {opens : Instant} {used : Span} {links : PageLinks}
  {report : CapReport} {it : Itinerary}

/-- What a page shows was found by its search and not passed over. -/
theorem of_mem_itineraries (transit : ∀ it ∈ timetable, it.hasTransit)
    (debug : p.filter.debug = .off) (h : r.Answers (r.found timetable) p policy resp)
    (ho : r.opens = some opens) (hw : r.window = some used) (hit : it ∈ resp.itineraries) :
    it.hasTransit ∧ r.searches it.start ∧ r.passedOver it = false := by
  rw [h.itineraries debug] at hit
  have hmem := Cap.mem_of_mem_crop_snd _ hit
  exact (of_mem_offered ho hw h.valid (hasTransit_of_mem_found transit) hmem).2

/-- A page that was cut shows an itinerary with the key of the cut. -/
theorem exists_cut (debug : p.filter.debug = .off) (h : r.Answers its p policy resp)
    (hcap : resp.cap = some report) : ∃ it ∈ resp.itineraries, it.key = report.cut := by
  obtain ⟨it, hit, hcut⟩ := Cap.boundary_of_reportOf (h.cap.symm.trans hcap)
  rw [h.itineraries debug]
  exact ⟨it, Cap.mem_of_boundary? hit, hcut⟩

/-- The cut is the key of a ride that departs in the window and was not passed over. -/
theorem exists_ride_of_cut (transit : ∀ it ∈ its, it.hasTransit) (h : r.Answers its p policy resp)
    (ho : r.opens = some opens) (hw : r.window = some used) (hcap : resp.cap = some report) :
    ∃ it, it.key = report.cut ∧ it.hasTransit ∧ r.searches it.start ∧ r.passedOver it = false := by
  obtain ⟨it, hit, hcut⟩ := Cap.boundary_of_reportOf (h.cap.symm.trans hcap)
  have hoffered := Cap.mem_of_mem_crop_snd _ (Cap.mem_of_boundary? hit)
  exact ⟨it, hcut, (of_mem_offered ho hw h.valid transit hoffered).2⟩

theorem minute_le_window (minutes : 1 ≤ p.paging.minMinutes) (h : r.Answers its p policy resp)
    (linked : resp.links = some links) (d : PageDirection) :
    Span.minute ≤ (links.toward d).window := by
  obtain ⟨opens, used, -, -, hl⟩ := h.linked linked
  have hmin := hl.min_le d
  have hpolicy := PagingPreferences.min_of_policy h.policy_eq
  rw [Span.le_iff] at hmin ⊢
  simp only [Span.minute] at *
  omega

/-- A page is cut inside its window. -/
theorem searches_cut (transit : ∀ it ∈ its, it.hasTransit) (h : r.Answers its p policy resp)
    (ho : r.opens = some opens) (hw : r.window = some used) (hcap : resp.cap = some report) :
    opens ≤ report.cut.start ∧ report.cut.start.ticks < opens.shift used.nanos := by
  obtain ⟨it, hcut, -, hsearched, -⟩ := exists_ride_of_cut transit h ho hw hcap
  rw [← hcut]
  exact (searches_iff ho hw).mp hsearched

theorem passedOver_neighbour_of_cut (hl : r.page.Linked policy resp.cap opens used links)
    (hcap : resp.cap = some report) (it : Itinerary) :
    (r.withCursor (links.toward r.page.direction)).passedOver it =
      (Flagger.alreadyShown r.order r.croppedEnd.opposite report.cut).rejectsAlone it := by
  rw [passedOver_neighbour hl, croppedEnd_neighbour hl, if_pos rfl, hcap, Option.any_some]

/-- What a page shows that was cut is passed over on the next one. -/
theorem passedOver_of_shown (debug : p.filter.debug = .off) (h : r.Answers its p policy resp)
    (hl : r.page.Linked policy resp.cap opens used links) (hcap : resp.cap = some report)
    (hit : it ∈ resp.itineraries) :
    (r.withCursor (links.toward r.page.direction)).passedOver it := by
  rw [h.itineraries debug] at hit
  rw [passedOver_neighbour_of_cut hl hcap]
  exact Cap.alreadyShown_of_mem_kept (r.offered_pairwise _ _) (h.cap.symm.trans hcap) hit

/-- What a page passes over that was cut is passed over on the next one again. -/
theorem passedOver_of_passedOver (transit : ∀ it ∈ timetable, it.hasTransit)
    (debug : p.filter.debug = .off) (h : r.Answers (r.found timetable) p policy resp)
    (ho : r.opens = some opens) (hw : r.window = some used)
    (hl : r.page.Linked policy resp.cap opens used links) (hcap : resp.cap = some report)
    (hit : r.passedOver it) :
    (r.withCursor (links.toward r.page.direction)).passedOver it := by
  obtain ⟨last, hlast, hcut⟩ := exists_cut debug h hcap
  have hnot := (of_mem_itineraries transit debug h ho hw hlast).2.2
  rw [passedOver, Option.any_eq_true] at hit
  obtain ⟨old, hold, hit⟩ := hit
  rw [passedOver, hold, Option.any_some] at hnot
  rw [passedOver_neighbour_of_cut hl hcap, ← hcut]
  exact alreadyShown_of_not_alreadyShown hit hnot

end SearchRequest

/-! Requests for examples -/

/-- A first request. -/
def SearchRequest.first (arriveBy : Bool) (count opens window : Nat) : SearchRequest where
  arriveBy := arriveBy
  count := count
  opens := some (.ofMinutes opens)
  latestArrival := none
  window := some (.ofMinutes window)
  cursor := none

def PageCursor.ofMinutes (direction : PageDirection) (order : SortOrder) (opens window : Nat)
    (cut : Option SortKey) : PageCursor where
  direction := direction
  order := order
  opens := .ofMinutes opens
  latestArrival := none
  window := .ofMinutes window
  cut := cut

def Preferences.bare : Preferences := ⟨.none, .standard⟩

theorem FilterPreferences.isBare_none : FilterPreferences.none.IsBare where
  similarity := rfl
  sameRoutesAndStops := rfl
  sameEndTrip := rfl
  leastBicycleDistance := by decide
  transitCost := rfl
  streetCost := rfl
  dearerThanStreet := rfl
  dearerThanWalk := rfl
  walkOnly := rfl
  rentedBicycleRatio := by decide
  drivingRatio := by decide

/-- What comes to the cap without rules, sorted by insertion. -/
theorem SearchRequest.offered_bare (r : SearchRequest) (its : List Itinerary) :
    r.offered Preferences.bare.filter its =
      ((its.filter Itinerary.isKept).filter (r.plan .none []).admits).insertionSort fun a b =>
        (r.order.compare a.key b.key).isLE = true := by
  have hplan : (r.plan .none []).preferences.IsBare := by
    rw [plan_eq]
    exact FilterPreferences.isBare_none
  have horder : (r.plan .none []).order = r.order := by rw [plan_eq]
  have hoffered := Plan.offered_of_isBare (by rw [plan_eq]) hplan its
  rw [horder, sortByRanks_eq_insertionSort] at hoffered
  exact hoffered

theorem searches_of_paged {timetable offered : List Itinerary} {p : Preferences}
    {r : SearchRequest} {resp : Response} (debug : p.filter.debug = .off)
    (hoffered : r.offered p.filter (r.found timetable) = offered)
    (hpaged : r.paged p offered = .ok resp) : Searches timetable p r resp := by
  unfold Searches
  rw [r.respond_eq_paged debug, hoffered, hpaged]

theorem searches_bare {timetable offered : List Itinerary} {r : SearchRequest} {resp : Response}
    (hoffered : r.offered Preferences.bare.filter (r.found timetable) = offered)
    (hpaged : r.paged .bare offered = .ok resp) : Searches timetable .bare r resp :=
  searches_of_paged rfl hoffered hpaged

theorem answersTransit_bare {its offered : List Itinerary} {r : SearchRequest} {resp : Response}
    (transit : ∀ it ∈ its, it.hasTransit)
    (hoffered : r.offered Preferences.bare.filter its = offered)
    (hpaged : r.paged .bare offered = .ok resp) : AnswersTransit r resp := by
  refine ⟨its, .bare, transit, by decide, ?_⟩
  rw [r.respond_eq_paged rfl, hoffered, hpaged]

/-! A search for arrivals that opens in a leap second, at 08:00:60, with a ride just then. The page
before it closes at 08:01:00. -/

section leap

def leapSecond : Instant := ⟨(Instant.ofMinutes 480).ticks + 60000000000, by decide⟩

def leapRide : Itinerary := .ofLeg
  { slowLeg with start := leapSecond, finish := .ofMinutes 510, start_le_finish := by decide }
  (.saturate 1000)

def leapArrival : SearchRequest :=
  { SearchRequest.first true 1 480 60 with opens := some leapSecond }

def beforeLeap : PageCursor := .ofMinutes .previous .streetAndDeparture 421 60 none

theorem searches_leapArrival : ∃ resp links, Searches [leapRide] .bare leapArrival resp ∧
    resp.links = some links ∧ links.toward .previous = beforeLeap ∧
    resp.itineraries = [leapRide] := by
  have hoffered : leapArrival.offered Preferences.bare.filter (leapArrival.found [leapRide]) =
      [leapRide] := by
    rw [SearchRequest.offered_bare]
    rfl
  exact ⟨_, _, searches_bare hoffered rfl, rfl, by decide +kernel, rfl⟩

theorem searches_beforeLeap : ∃ resp,
    Searches [leapRide] .bare (leapArrival.withCursor beforeLeap) resp ∧
    resp.itineraries = [leapRide] := by
  have hoffered : (leapArrival.withCursor beforeLeap).offered Preferences.bare.filter
      ((leapArrival.withCursor beforeLeap).found [leapRide]) = [leapRide] := by
    rw [SearchRequest.offered_bare]
    rfl
  exact ⟨_, searches_bare hoffered rfl, rfl⟩

end leap

end JourneyPages
