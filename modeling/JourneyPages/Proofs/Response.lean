import JourneyPages.Response
import JourneyPages.Proofs.Filter.Chain
import JourneyPages.Proofs.Paging.Links

/-!
A response by what comes to the cap of its run. The list, the cut and the links all follow from
the itineraries offered there, and paging offers those that depart in the window of the request
and are not on the near side of the cut that the request comes from.
-/
namespace JourneyPages

namespace SearchRequest
variable (r : SearchRequest)

/-- Whether the request searches for departures at this time. -/
def searches (t : Instant) : Bool :=
  match r.opens, r.window with
  | some opens, some window =>
    decide (opens ≤ t) && decide (t.ticks < opens.shift window.nanos)
  | _, _ => false

/-- The members of a timetable that its search finds. -/
def found (timetable : List Itinerary) : List Itinerary :=
  timetable.filter fun it => r.searches it.start

/-- Whether an itinerary is on the near side of the cut that the request comes from, the cut
included. -/
def passedOver (it : Itinerary) : Bool :=
  (r.cursor.bind PageCursor.cut).any fun cut =>
    (Flagger.alreadyShown r.order r.croppedEnd.opposite cut).rejectsAlone it

/-- The kept itineraries that come to the cap of its run, in the order of results. -/
def offered (p : FilterPreferences) (its : List Itinerary) : List Itinerary :=
  (r.plan p []).offered its

/-- The itineraries that the rules of its run keep. -/
def ruled (p : FilterPreferences) (its : List Itinerary) : List Itinerary :=
  (r.plan p []).ruled its

theorem plan_eq (p : FilterPreferences) : r.plan p [] =
    ⟨r.order, p, r.count, r.croppedEnd, r.opens.bind fun opens => r.window.map fun w => (opens, w),
      (r.cursor.bind PageCursor.cut).map fun cut => (cut, r.croppedEnd.opposite), []⟩ := by
  unfold plan settings
  cases r.opens <;> cases r.window <;> cases r.cursor.bind PageCursor.cut <;> rfl

/-- The response to a request, given what comes to the cap. -/
def paged (p : Preferences) (offered : List Itinerary) : Except ResponseError Response := do
  r.page.validate.mapError .paging
  let policy ← p.paging.policy.mapError .paging
  let shown := (Cap.crop r.count r.croppedEnd offered).2
  let report := Cap.reportOf r.count r.croppedEnd offered
  let links ← (r.page.links policy shown report).mapError .paging
  pure ⟨shown, links, report⟩

theorem run_plan (p : FilterPreferences) (its : List Itinerary) : (r.plan p []).chain.run its =
    .ok ⟨(r.plan p []).chain.sweep ((r.plan p []).gathered its),
      Cap.reportOf r.count r.croppedEnd (r.offered p its)⟩ := by
  have h := Plan.run_chain (p := r.plan p []) (by rw [plan_eq]) its
  rw [plan_eq] at h
  rw [offered, plan_eq]
  exact h

theorem sweep_plan {p : FilterPreferences} (debug : p.debug = .off) (its : List Itinerary) :
    (r.plan p []).chain.sweep ((r.plan p []).gathered its) =
      (Cap.crop r.count r.croppedEnd (r.offered p its)).2 := by
  have h := Plan.sweep_gathered (p := r.plan p []) (by rw [plan_eq]) (by rw [plan_eq, debug]) its
  rw [plan_eq] at h
  rw [offered, plan_eq]
  exact h

theorem respond_eq_paged {p : Preferences} (debug : p.filter.debug = .off)
    (its : List Itinerary) : r.respond its p [] = r.paged p (r.offered p.filter its) := by
  simp only [respond, paged, r.run_plan, r.sweep_plan debug, bind_mapError_ok]

end SearchRequest

/-- What a response without decorators says about its request. -/
structure SearchRequest.Answers (r : SearchRequest) (its : List Itinerary) (p : Preferences)
    (policy : WindowPolicy) (resp : Response) : Prop where
  policy_eq : p.paging.policy = .ok policy
  valid : r.page.validate = .ok ()
  cap : resp.cap = Cap.reportOf r.count r.croppedEnd (r.offered p.filter its)
  swept : resp.itineraries =
    (r.plan p.filter []).chain.sweep ((r.plan p.filter []).gathered its)
  links : r.page.links policy resp.itineraries resp.cap = .ok resp.links

namespace SearchRequest
variable {r : SearchRequest} {p : Preferences} {its : List Itinerary} {resp : Response}

theorem answers_of_respond (h : r.respond its p [] = .ok resp) :
    ∃ policy, r.Answers its p policy resp := by
  obtain ⟨⟨⟩, hvalid, h⟩ := ok_of_bind h
  obtain ⟨policy, hpolicy, h⟩ := ok_of_bind h
  obtain ⟨result, hresult, h⟩ := ok_of_bind h
  obtain ⟨links, hlinks, h⟩ := ok_of_bind h
  have hresult := (ok_of_mapError hresult).symm.trans (r.run_plan p.filter its)
  generalize hshown : (r.plan p.filter []).chain.sweep _ = shown at hresult
  generalize hreport : Cap.reportOf _ _ _ = report at hresult
  cases hresult
  cases h
  exact ⟨policy, ok_of_mapError hpolicy, ok_of_mapError hvalid, hreport.symm, hshown.symm,
    ok_of_mapError hlinks⟩

/-- Without debugging a response shows what the cap leaves. -/
theorem Answers.itineraries {policy : WindowPolicy} (h : r.Answers its p policy resp)
    (debug : p.filter.debug = .off) :
    resp.itineraries = (Cap.crop r.count r.croppedEnd (r.offered p.filter its)).2 :=
  h.swept.trans (r.sweep_plan debug its)

/-- A response with links searched a window. -/
theorem Answers.linked {policy : WindowPolicy} {l : PageLinks} (h : r.Answers its p policy resp)
    (hl : resp.links = some l) : ∃ opens used, r.opens = some opens ∧ r.window = some used ∧
      r.page.Linked policy resp.cap opens used l := by
  have hlinks := h.links
  cases hw : r.window with
  | none =>
    rw [PageRequest.links_of_window_eq_none (r := r.page) hw hlinks] at hl
    cases hl
  | some used =>
    obtain ⟨opens, ho⟩ := PageRequest.exists_opens_of_validate (r := r.page) hw h.valid
    obtain ⟨_, hl', hlinked⟩ := PageRequest.linked_of_links (r := r.page) ho hw hlinks
    rw [hl] at hl'
    cases hl'
    exact ⟨opens, used, ho, rfl, hlinked⟩

/-- A response to a request with a window has links. -/
theorem Answers.exists_links {policy : WindowPolicy} {used : Span}
    (h : r.Answers its p policy resp) (hw : r.window = some used) :
    ∃ l, resp.links = some l := by
  obtain ⟨opens, ho⟩ := PageRequest.exists_opens_of_validate (r := r.page) hw h.valid
  obtain ⟨l, hl, -⟩ := PageRequest.linked_of_links (r := r.page) ho hw h.links
  exact ⟨l, hl⟩

/-! Requests -/

theorem firstOrder_page (r : SearchRequest) : r.page.firstOrder = r.order := by
  cases h : r.cursor <;> simp [page, PageRequest.firstOrder, order, h]

/-- The end that is cropped when the page of this request goes in a direction. -/
theorem croppedEnd_eq (r : SearchRequest) : r.croppedEnd =
    if r.page.direction.isNext = r.order.ascending then .tail else .head := by
  cases h : r.cursor with
  | some c => simp [page, PageRequest.direction, croppedEnd, order, h, PageCursor.croppedEnd]
  | none =>
    have hfirst : r.page.direction.isNext = r.order.ascending := by
      simp only [page, PageRequest.direction, h]
      cases r.order <;> rfl
    rw [if_pos hfirst, croppedEnd, h]

theorem hasTransit_of_mem_found {timetable : List Itinerary}
    (transit : ∀ it ∈ timetable, it.hasTransit) : ∀ it ∈ r.found timetable, it.hasTransit := by
  intro it hit
  exact transit it (List.mem_of_mem_filter hit)

section window
variable {opens : Instant} {window : Span} (ho : r.opens = some opens) (hw : r.window = some window)
include ho hw

theorem searches_iff {t : Instant} : r.searches t ↔
    opens ≤ t ∧ t.ticks < opens.shift window.nanos := by
  simp [searches, ho, hw]

variable (hvalid : r.page.validate = .ok ())
include hvalid

theorem of_validate : 0 ≤ window.nanos ∧ ∃ closes, opens.add? window = some closes := by
  simp only [page, PageRequest.validate, ho, hw] at hvalid
  split at hvalid
  case isTrue => cases hvalid
  case isFalse h =>
    rw [not_or, Span.lt_iff, Bool.not_eq_false] at h
    simp only [PageCursor.reachable, Bool.and_eq_true, Option.isSome_iff_exists] at h
    exact ⟨not_lt.mp h.1, h.2.1⟩

/-- Paging admits the transit of its window that was not passed over. -/
theorem admits_plan (p : FilterPreferences) {it : Itinerary} (transit : it.hasTransit) :
    (r.plan p []).admits it = (r.searches it.start && !r.passedOver it) := by
  obtain ⟨-, closes, hcloses⟩ := of_validate ho hw hvalid
  have hticks := Instant.add?_eq_some_iff.mp hcloses
  have hwindow : (!(Flagger.outsideWindow opens window).rejectsAlone it) = r.searches it.start := by
    rw [Bool.eq_iff_iff, searches_iff ho hw, ← hticks]
    simp [Flagger.rejectsAlone, Flagger.isOutside, transit, hcloses, Instant.lt_iff,
      Instant.le_iff]
  rw [plan_eq, Plan.admits, ho, hw, passedOver]
  cases r.cursor.bind PageCursor.cut <;> simp [hwindow]

/-- Transit that comes to the cap departs in the window and was not passed over. -/
theorem searches_of_mem_offered {p : FilterPreferences} {it : Itinerary}
    (hit : it ∈ r.offered p its) (transit : it.hasTransit) :
    r.searches it.start ∧ r.passedOver it = false := by
  obtain ⟨-, hadmits, -⟩ :=
    Plan.of_mem_offered (by rw [plan_eq]) (show it ∈ (r.plan p []).offered its from hit)
  rwa [admits_plan ho hw hvalid p transit, Bool.and_eq_true, Bool.not_eq_true'] at hadmits

/-- What comes to the cap was found by the search and not passed over. -/
theorem of_mem_offered {p : FilterPreferences} {it : Itinerary}
    (transit : ∀ it ∈ its, it.hasTransit) (hit : it ∈ r.offered p its) :
    it.isKept ∧ it.hasTransit ∧ r.searches it.start ∧ r.passedOver it = false := by
  obtain ⟨hkept, -, found, hfound, rfl⟩ :=
    Plan.of_mem_offered (by rw [plan_eq]) (show it ∈ (r.plan p []).offered its from hit)
  have htransit : found.untagged.hasTransit := by
    rw [Itinerary.hasTransit_untagged]
    exact transit found hfound
  exact ⟨hkept, htransit, searches_of_mem_offered ho hw hvalid hit htransit⟩

/-- What comes to the cap of a search that found transit only. -/
theorem mem_offered_iff {p : FilterPreferences} (transit : ∀ it ∈ its, it.hasTransit)
    {it : Itinerary} : it ∈ r.offered p its ↔
      it ∈ r.ruled p its ∧ r.searches it.start ∧ r.passedOver it = false := by
  obtain ⟨hoffered, hfound⟩ := Plan.offered_eq_ruled (p := r.plan p []) (by rw [plan_eq]) its
  rw [offered, hoffered, mem_sortByRanks, List.mem_filter, ruled]
  refine and_congr_right fun hruled => ?_
  have huntagged := hfound.subset (List.mem_map_of_mem hruled)
  obtain ⟨found, hmem, heq⟩ := List.mem_map.mp huntagged
  have htransit : it.hasTransit := by
    rw [← Itinerary.hasTransit_untagged, ← heq, Itinerary.hasTransit_untagged]
    exact transit found hmem
  rw [admits_plan ho hw hvalid p htransit, Bool.and_eq_true, Bool.not_eq_true']

end window

/-- If no two keys of the search are equal, no two keys of what comes to the cap are. -/
theorem nodup_offered (r : SearchRequest) (p : FilterPreferences)
    (distinct : (its.map Itinerary.key).Nodup) : ((r.offered p its).map Itinerary.key).Nodup := by
  obtain ⟨hoffered, found, hperm, hfound⟩ :=
    Plan.offered_eq_ruled (p := r.plan p []) (by rw [plan_eq]) its
  have hkeys : ∀ xs : List Itinerary, (xs.map Itinerary.untagged).map Itinerary.key =
      xs.map Itinerary.key := by
    intro xs
    rw [List.map_map]
    rfl
  have hnodup : (found.map Itinerary.key).Nodup := by
    have hsublist := hfound.map Itinerary.key
    rw [hkeys] at hsublist
    exact distinct.sublist hsublist
  have hruled := (hperm.map Itinerary.key).nodup_iff.mp hnodup
  rw [hkeys] at hruled
  rw [offered, hoffered]
  have hsorted := (sortByRanks_perm (r.plan p []).order.ranks
    (((r.plan p []).ruled its).filter (r.plan p []).admits)).map Itinerary.key
  exact hsorted.nodup_iff.mpr (hruled.sublist (List.filter_sublist.map Itinerary.key))

theorem offered_pairwise (r : SearchRequest) (p : FilterPreferences) (its : List Itinerary) :
    (r.offered p its).Pairwise fun a b => (r.order.compare a.key b.key).isLE := by
  have h := (r.plan p []).offered_pairwise its
  rw [show (r.plan p []).order = r.order by rw [plan_eq]] at h
  exact h

/-! Neighbours -/

section neighbour
variable {policy : WindowPolicy} {report : Option CapReport} {opens : Instant} {used : Span}
  {l : PageLinks} (hl : r.page.Linked policy report opens used l) (d : PageDirection)
include hl

theorem order_neighbour : (r.withCursor (l.toward d)).order = r.order :=
  (hl.order d).trans r.firstOrder_page

theorem direction_neighbour : (r.withCursor (l.toward d)).page.direction = d := hl.direction d

/-- Neighbours in the direction of a page are cropped at the same end. -/
theorem croppedEnd_neighbour : (r.withCursor (l.toward d)).croppedEnd =
    if r.page.direction = d then r.croppedEnd else r.croppedEnd.opposite := by
  rw [croppedEnd_eq (r.withCursor (l.toward d)), croppedEnd_eq r, direction_neighbour hl,
    order_neighbour hl]
  cases d <;> cases r.page.direction <;> cases r.order <;> rfl

theorem passedOver_neighbour (it : Itinerary) : (r.withCursor (l.toward d)).passedOver it =
    report.any fun report => (Flagger.alreadyShown r.order
      (r.withCursor (l.toward d)).croppedEnd.opposite report.cut).rejectsAlone it := by
  have hcut : (r.withCursor (l.toward d)).cursor.bind PageCursor.cut =
      report.map CapReport.cut := hl.cut d
  rw [passedOver, hcut, order_neighbour hl, Option.any_map]

/-- What a page and its neighbour both search, if the page was not cut on that side, is the second
from a leap second on with which the window of the page opens: the page before it reaches into
it. -/
theorem isLeap_of_searches_of_uncut (ho : r.opens = some opens) (hw : r.window = some used)
    (huncut : r.page.direction = d → report = none) {t : Instant} (ht : r.searches t)
    (hback : (r.withCursor (l.toward d)).searches t) :
    d = .previous ∧ opens.IsLeap ∧ t.ticks < opens.ticks + 1000000000 := by
  obtain ⟨hle, hlt⟩ := (searches_iff ho hw).mp ht
  obtain ⟨hle', hlt'⟩ := (searches_iff (r := r.withCursor (l.toward d)) rfl rfl).mp hback
  cases d with
  | next =>
    have hopens := hl.opens_of_uncut huncut
    simp only [PageLinks.toward, Instant.le_iff] at hle'
    omega
  | previous =>
    simp only [PageLinks.toward] at hle' hlt'
    have hpos := Instant.lt_shift_iff.mp (lt_of_le_of_lt (Instant.le_iff.mp hle') hlt')
    have hopens := hl.previous_opens_of_uncut huncut
    rcases Instant.shift_of_shift_neg hpos.le hopens with hcloses | ⟨hleap, hcloses⟩
    · rw [Instant.le_iff] at hle
      omega
    · exact ⟨rfl, hleap, hcloses ▸ hlt'⟩

omit d in
/-- All of that second is searched again. -/
theorem searches_previous_of_isLeap (huncut : r.page.direction = .previous → report = none)
    (hsecond : 1000000000 ≤ l.previous.window.nanos) (hleap : opens.IsLeap) {t : Instant}
    (hle : opens ≤ t) (hlt : t.ticks < opens.ticks + 1000000000) :
    (r.withCursor (l.toward .previous)).searches t := by
  have hopens := hl.previous_opens_of_uncut huncut
  have hcloses := Instant.shift_of_shift_neg_of_isLeap hleap hsecond hopens
  have hback : opens.shift (-l.previous.window.nanos) ≤ opens.ticks :=
    Instant.shift_le (by omega)
  rw [searches_iff (r := r.withCursor (l.toward .previous)) rfl rfl]
  rw [Instant.le_iff] at *
  simp only [PageLinks.toward]
  omega

end neighbour

end SearchRequest
end JourneyPages
