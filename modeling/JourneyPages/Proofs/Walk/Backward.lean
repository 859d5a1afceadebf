import JourneyPages.Proofs.Walk

/-!
Walks back in time, with late departures first. The list of a page is then in the order in which
the search goes through the timetable, and so the pages put one behind the other are the timetable:
each page starts in it where the one in front has stopped. The first page alone can open in a leap
second. If it was not cut then, the second page starts up to a second late in the timetable, and
repeats what departs by then.
-/
namespace JourneyPages

/-- A list in which what satisfies `q` comes first. -/
theorem filter_append_rest {α : Type} {q : α → Bool} {xs : List α}
    (h : xs.Pairwise fun a b => q b → q a) : xs.filter q ++ xs.filter (fun x => !q x) = xs := by
  induction xs with
  | nil => rfl
  | cons x xs ih =>
    obtain ⟨hx, hxs⟩ := List.pairwise_cons.mp h
    by_cases hq : q x = true
    · simp [hq, ih hxs]
    · have hnone : xs.filter q = [] := List.filter_eq_nil_iff.mpr fun y hy hqy => hq (hx y hy hqy)
      have hall := ih hxs
      rw [hnone, List.nil_append] at hall
      simp [hq, hnone, hall]

/-- The kept members of a timetable, late departures first. -/
def listing (timetable : List Itinerary) : List Itinerary :=
  sortByRanks SortOrder.streetAndDeparture.ranks (timetable.filter Itinerary.isKept)

/-- Nothing that is kept of a timetable departs in the second from a point on. -/
def QuietFrom (timetable : List Itinerary) (t : Instant) : Prop :=
  ∀ it ∈ timetable, it.isKept → t ≤ it.start → t.ticks + 1000000000 ≤ it.start.ticks

namespace SearchRequest
variable {timetable : List Itinerary} {p : Preferences} {r : SearchRequest} {resp : Response}
  {policy : WindowPolicy} {opens : Instant} {used : Span} {links : PageLinks}
  {report : CapReport} {it : Itinerary}

/-- Whether an itinerary is still to come on the page or behind it: it departs before the window
closes and was not passed over. -/
def awaits (r : SearchRequest) (it : Itinerary) : Bool :=
  (match r.opens, r.window with
  | some opens, some window => decide (it.start.ticks < opens.shift window.nanos)
  | _, _ => false) && !r.passedOver it

/-- The part of the timetable that is still to come. -/
def awaited (r : SearchRequest) (timetable : List Itinerary) : List Itinerary :=
  (listing timetable).filter r.awaits

/-- What the request for each page of a walk back in time satisfies. A cut that it knows is inside
its window or ahead of it. -/
structure GoesBack (r : SearchRequest) : Prop where
  order : r.order = .streetAndDeparture
  direction : r.page.direction = .previous
  count : 1 ≤ r.count
  cut : ∀ cut, r.cursor.bind PageCursor.cut = some cut →
    cut.streetOnly = false ∧ ∃ opens, r.opens = some opens ∧ opens ≤ cut.start

theorem mem_listing : it ∈ listing timetable ↔ it ∈ timetable ∧ it.isKept := by
  rw [listing, mem_sortByRanks, List.mem_filter]

/-- Departures in the listing go back in time. -/
theorem listing_pairwise (transit : ∀ it ∈ timetable, it.hasTransit) :
    (listing timetable).Pairwise fun a b => b.start ≤ a.start := by
  have hsorted := sortByRanks_pairwise SortOrder.streetAndDeparture.ranks
    (timetable.filter Itinerary.isKept)
  apply hsorted.imp_of_mem
  intro a b ha hb hab
  have ha := Itinerary.streetOnly_key (transit a (mem_listing.mp ha).1)
  have hb := Itinerary.streetOnly_key (transit b (mem_listing.mp hb).1)
  exact SortOrder.start_le_of_isLE_compare ha hb hab

namespace GoesBack
variable (hback : r.GoesBack)
include hback

theorem croppedEnd : r.croppedEnd = .tail := by
  rw [croppedEnd_eq, hback.direction, hback.order]
  rfl

/-- What was passed over departs when the window has opened. -/
theorem opens_le_of_passedOver (ho : r.opens = some opens) (transit : it.hasTransit)
    (h : r.passedOver it) : opens ≤ it.start := by
  rw [passedOver, Option.any_eq_true] at h
  obtain ⟨cut, hcut, hrejects⟩ := h
  obtain ⟨hstreet, opens', ho', hle⟩ := hback.cut cut hcut
  rw [ho] at ho'
  cases ho'
  rw [hback.croppedEnd, hback.order] at hrejects
  have hstart : cut.start ≤ it.start :=
    SortOrder.start_le_of_isLE_compare (Itinerary.streetOnly_key transit) hstreet hrejects
  exact hle.trans hstart

/-- The page before one on the way back. -/
theorem neighbour (transit : ∀ it ∈ timetable, it.hasTransit) (debug : p.filter.debug = .off)
    (minutes : 1 ≤ p.paging.minMinutes) (h : r.Answers (r.found timetable) p policy resp)
    (linked : resp.links = some links) (ho : r.opens = some opens) (hw : r.window = some used)
    (hl : r.page.Linked policy resp.cap opens used links) :
    (r.withCursor (links.toward .previous)).GoesBack where
  order := (order_neighbour hl .previous).trans hback.order
  direction := direction_neighbour hl .previous
  count := hback.count
  cut := by
    intro cut hcut
    have hcut : resp.cap.map CapReport.cut = some cut := (hl.cut .previous).symm.trans hcut
    obtain ⟨report, hcap, rfl⟩ := Option.map_eq_some_iff.mp hcut
    obtain ⟨last, hlast, hkey⟩ := exists_cut debug h hcap
    have htransit := (of_mem_itineraries transit debug h ho hw hlast).1
    refine ⟨hkey ▸ Itinerary.streetOnly_key htransit, _, rfl, ?_⟩
    exact hl.opens_le_of_cut hback.direction hcap (minute_le_window minutes h linked .previous)

end GoesBack

theorem goesBack_first (arriveBy : r.arriveBy = true) (count : 1 ≤ r.count)
    (first : r.cursor = none) : r.GoesBack where
  order := by simp [order, first, arriveBy, SortOrder.forSearch]
  direction := by
    simp [page, PageRequest.direction, order, first, arriveBy, SortOrder.forSearch,
      SortOrder.ascending]
  count := count
  cut := by simp [first]

/-! The timetable that is still to come -/

theorem awaits_eq (ho : r.opens = some opens) (hw : r.window = some used) (it : Itinerary) :
    r.awaits it =
      (decide (it.start.ticks < opens.shift used.nanos) && !r.passedOver it) := by
  simp [awaits, ho, hw]

theorem awaited_pairwise (hback : r.GoesBack) (timetable : List Itinerary) :
    (r.awaited timetable).Pairwise fun a b => (r.order.compare a.key b.key).isLE := by
  rw [hback.order]
  exact (sortByRanks_pairwise _ _).sublist List.filter_sublist

theorem nodup_awaited (r : SearchRequest) (distinct : (timetable.map Itinerary.key).Nodup) :
    ((r.awaited timetable).map Itinerary.key).Nodup := by
  have hkept := distinct.sublist ((List.filter_sublist (p := Itinerary.isKept)).map Itinerary.key)
  have hsorted := ((sortByRanks_perm SortOrder.streetAndDeparture.ranks
    (timetable.filter Itinerary.isKept)).map Itinerary.key).nodup_iff.mpr hkept
  exact hsorted.sublist (List.filter_sublist.map Itinerary.key)

section bare
variable (bare : p.filter.IsBare) (transit : ∀ it ∈ timetable, it.hasTransit)
include bare transit

/-- Without rules, what comes to the cap is in the listing. -/
theorem offered_eq_filter (horder : r.order = .streetAndDeparture) (ho : r.opens = some opens)
    (hw : r.window = some used) (hvalid : r.page.validate = .ok ()) :
    r.offered p.filter (r.found timetable) =
      (listing timetable).filter fun it => r.searches it.start && !r.passedOver it := by
  have hplan : (r.plan p.filter []).order = .streetAndDeparture := by rw [plan_eq, horder]
  have hoffered := Plan.offered_of_isBare (p := r.plan p.filter []) (by rw [plan_eq])
    (by rw [plan_eq]; exact bare) (r.found timetable)
  rw [hplan] at hoffered
  rw [offered, hoffered, listing, filter_sortByRanks, found]
  congr 1
  rw [List.filter_filter, List.filter_filter, List.filter_filter]
  apply List.filter_congr
  intro it hit
  rw [admits_plan ho hw hvalid p.filter (transit it hit)]
  cases r.searches it.start <;> cases r.passedOver it <;> cases it.isKept <;> rfl

/-- What comes to the cap is the front of what is still to come; the rest departs before the window
opens. -/
theorem awaited_eq_append (hback : r.GoesBack) (ho : r.opens = some opens)
    (hw : r.window = some used) (hvalid : r.page.validate = .ok ()) :
    r.awaited timetable = r.offered p.filter (r.found timetable) ++
      (listing timetable).filter fun it => decide (it.start < opens) := by
  have hused := Instant.le_shift (t := opens) (of_validate ho hw hvalid).1
  have hfront : (r.awaited timetable).filter (fun it => decide (opens ≤ it.start)) =
      r.offered p.filter (r.found timetable) := by
    rw [offered_eq_filter bare transit hback.order ho hw hvalid, awaited, List.filter_filter]
    apply List.filter_congr
    intro it _
    rw [awaits_eq ho hw, ← Bool.and_assoc]
    simp [searches, ho, hw]
  have hrest : (r.awaited timetable).filter (fun it => !decide (opens ≤ it.start)) =
      (listing timetable).filter fun it => decide (it.start < opens) := by
    rw [awaited, List.filter_filter]
    apply List.filter_congr
    intro it hit
    have htransit := transit it (mem_listing.mp hit).1
    rw [awaits_eq ho hw, Bool.eq_iff_iff]
    simp only [Bool.and_eq_true, Bool.not_eq_true', decide_eq_true_eq, decide_eq_false_iff_not,
      not_le]
    constructor
    · exact fun h => h.1
    · intro hbefore
      refine ⟨hbefore, (Instant.lt_iff.mp hbefore).trans_le hused, ?_⟩
      by_contra hpassed
      have hle := hback.opens_le_of_passedOver ho htransit (by simpa using hpassed)
      exact hbefore.not_ge hle
  rw [← hfront, ← hrest]
  refine (filter_append_rest ?_).symm
  apply ((listing_pairwise transit).sublist List.filter_sublist).imp
  intro a b hab hb
  rw [decide_eq_true_eq] at hb ⊢
  exact hb.trans hab

variable (debug : p.filter.debug = .off) (hback : r.GoesBack)
  (h : r.Answers (r.found timetable) p policy resp) (ho : r.opens = some opens)
  (hw : r.window = some used) (hl : r.page.Linked policy resp.cap opens used links)
include debug hback h ho hw

theorem itineraries_prefix_awaited : resp.itineraries <+: r.awaited timetable := by
  rw [awaited_eq_append bare transit hback ho hw h.valid, h.itineraries debug, hback.croppedEnd]
  exact (List.take_prefix _ _).trans (List.prefix_append _ _)

/-- What comes to the cap departs no later than something that is shown. -/
theorem exists_later (hit : it ∈ r.offered p.filter (r.found timetable)) :
    ∃ last ∈ resp.itineraries, it.start ≤ last.start := by
  have hsorted : (r.offered p.filter (r.found timetable)).Pairwise
      fun a b => b.start ≤ a.start := by
    rw [offered_eq_filter bare transit hback.order ho hw h.valid]
    exact (listing_pairwise transit).sublist List.filter_sublist
  have hcount := hback.count
  rw [h.itineraries debug, hback.croppedEnd]
  cases hoffered : r.offered p.filter (r.found timetable) with
  | nil =>
    rw [hoffered] at hit
    cases hit
  | cons last rest =>
    rw [hoffered] at hit hsorted
    have hlast : last ∈ (last :: rest).take r.count := by
      rw [List.take_cons hcount]
      exact List.mem_cons_self
    refine ⟨last, hlast, ?_⟩
    rcases List.mem_cons.mp hit with rfl | hit
    · exact le_rfl
    · exact (List.pairwise_cons.mp hsorted).1 it hit

omit bare transit ho hw in
/-- A page that was not cut shows all that comes to the cap. -/
theorem itineraries_eq_offered (hcap : resp.cap = none) :
    resp.itineraries = r.offered p.filter (r.found timetable) := by
  rw [h.itineraries debug, Cap.crop_of_reportOf_eq_none hback.count (h.cap.symm.trans hcap)]

include hl

section uncut
variable (hcap : resp.cap = none) (hminute : 60000000000 ≤ links.previous.window.nanos)
include hcap hminute

omit bare transit debug hback h ho hw in
/-- The page behind one that was not cut closes when that one opens, or else a second late, and then
nothing departs in between. -/
theorem departs_before_close_iff (hquiet : opens.IsLeap → QuietFrom timetable opens)
    (hit : it ∈ timetable) (hkept : it.isKept) :
    it.start.ticks < links.previous.opens.shift links.previous.window.nanos ↔
      it.start < opens := by
  have huncut : r.page.direction = .previous → resp.cap = none := fun _ => hcap
  by_cases hleap : opens.IsLeap
  · have hopens := hl.previous_opens_of_uncut huncut
    have hlater := hquiet hleap it hit hkept
    rw [Instant.shift_of_shift_neg_of_isLeap hleap (by omega) hopens, Instant.lt_iff]
    rw [Instant.le_iff] at hlater
    omega
  · rw [hl.closes_of_uncut huncut hleap, Instant.lt_iff]

/-- Behind a page that was not cut, all that departs before its window is still to come, and nothing
else but what departs in the second from a leap second on. -/
theorem awaited_of_uncut (hquiet : opens.IsLeap → QuietFrom timetable opens) :
    r.awaited timetable =
      resp.itineraries ++ (r.withCursor (links.toward .previous)).awaited timetable := by
  have hlater : (r.withCursor (links.toward .previous)).awaited timetable =
      (listing timetable).filter fun it => decide (it.start < opens) := by
    apply List.filter_congr
    intro it hit
    obtain ⟨hit, hkept⟩ := mem_listing.mp hit
    have hcloses := departs_before_close_iff hl hcap hminute hquiet hit hkept
    rw [awaits_eq (r := r.withCursor (links.toward .previous)) rfl rfl, passedOver_neighbour hl,
      hcap]
    simp only [PageLinks.toward, Option.any_none, Bool.not_false, Bool.and_true, hcloses]
  rw [awaited_eq_append bare transit hback ho hw h.valid,
    itineraries_eq_offered debug hback h hcap, hlater]

/-- Nothing departs in the second from a leap second on, or else the page behind one that was not
cut would list it again. -/
theorem quietFrom_of_prefix (hback' : (r.withCursor (links.toward .previous)).GoesBack)
    (hleap : opens.IsLeap) {policy' : WindowPolicy} {resp' : Response} {rest : List Itinerary}
    (h' : (r.withCursor (links.toward .previous)).Answers
      ((r.withCursor (links.toward .previous)).found timetable) p policy' resp')
    (hfront : resp.itineraries ++ (resp'.itineraries ++ rest) <+: r.awaited timetable) :
    QuietFrom timetable opens := by
  intro it hit hkept hle
  by_contra hlt
  have hsearched := searches_previous_of_isLeap hl (fun _ => hcap) (by omega) hleap hle
    (not_le.mp hlt)
  have hoffered : it ∈ (r.withCursor (links.toward .previous)).offered p.filter
      ((r.withCursor (links.toward .previous)).found timetable) := by
    rw [offered_eq_filter bare transit hback'.order rfl rfl h'.valid, List.mem_filter,
      mem_listing, hsearched, passedOver_neighbour hl, hcap]
    exact ⟨⟨hit, hkept⟩, rfl⟩
  obtain ⟨last, hlast, hlater⟩ := exists_later bare transit debug hback' h' rfl rfl hoffered
  rw [awaited_eq_append bare transit hback ho hw h.valid,
    itineraries_eq_offered debug hback h hcap, List.prefix_append_right_inj] at hfront
  have hmem := hfront.subset (List.mem_append_left rest hlast)
  exact ((of_decide_eq_true (List.mem_filter.mp hmem).2).trans_le hle).not_ge hlater

end uncut

omit bare in
/-- What the page behind a cut does not pass over departs with the cut or before it. -/
theorem start_le_cut (hcap : resp.cap = some report) (hit : it ∈ timetable)
    (hnot : (r.withCursor (links.toward .previous)).passedOver it = false) :
    it.start ≤ report.cut.start := by
  obtain ⟨last, hlast, hkey⟩ := exists_cut debug h hcap
  have hcut : report.cut.streetOnly = false :=
    hkey ▸ Itinerary.streetOnly_key (of_mem_itineraries transit debug h ho hw hlast).1
  have hstep := passedOver_neighbour_of_cut hl hcap it
  rw [hback.direction, hnot, hback.croppedEnd, hback.order] at hstep
  have hle := SortOrder.isLE_compare_of_not hstep.symm
  exact SortOrder.start_le_of_isLE_compare hcut (Itinerary.streetOnly_key (transit it hit)) hle

omit bare in
/-- The page behind a cut awaits what the page itself awaits and the cut does not rule out. -/
theorem awaits_of_cut (hcap : resp.cap = some report) (hit : it ∈ timetable) :
    (r.withCursor (links.toward .previous)).awaits it =
      (!(r.withCursor (links.toward .previous)).passedOver it && r.awaits it) := by
  rw [awaits_eq ho hw, awaits_eq (r := r.withCursor (links.toward .previous)) rfl rfl]
  cases hpassed : (r.withCursor (links.toward .previous)).passedOver it with
  | true => simp
  | false =>
    have hle := start_le_cut transit debug hback h ho hw hl hcap hit hpassed
    have hcloses := hl.closes_of_cut hback.direction hcap
    obtain ⟨last, hlast, hkey⟩ := exists_cut debug h hcap
    have hsearched := (searches_iff ho hw).mp (of_mem_itineraries transit debug h ho hw hlast).2.1
    have hstart : last.start = report.cut.start := congrArg SortKey.start hkey
    have hnot : r.passedOver it = false := by
      by_contra hp
      have hagain := passedOver_of_passedOver transit debug h ho hw hl hcap (by simpa using hp)
      rw [hback.direction, hpassed] at hagain
      cases hagain
    rw [hstart] at hsearched
    have hminute : report.cut.start.ticks < report.cut.start.shift 60000000000 :=
      Instant.lt_shift_iff.mpr (by decide)
    rw [Instant.le_iff] at hle
    simp only [PageLinks.toward, hcloses, hnot, Bool.not_false, Bool.and_true, Bool.true_and,
      decide_eq_decide]
    constructor <;> intro <;> omega

/-- Behind a page that was cut, all that it took off and all that departs before its window is still
to come. -/
theorem awaited_of_cut (distinct : (timetable.map Itinerary.key).Nodup)
    (hcap : resp.cap = some report) : r.awaited timetable =
      resp.itineraries ++ (r.withCursor (links.toward .previous)).awaited timetable := by
  have hreport := h.cap.symm.trans hcap
  have hlt := Cap.max_lt_of_reportOf hreport
  have happend := awaited_eq_append bare transit hback ho hw h.valid
  rw [hback.croppedEnd] at hreport
  obtain ⟨report', hreport', hcut⟩ := Cap.reportOf_append hreport
    ((listing timetable).filter fun it => decide (it.start < opens))
  rw [← happend] at hreport'
  -- The cap would cut all that is still to come at the same place.
  have hshown : resp.itineraries = (Cap.crop r.count .tail (r.awaited timetable)).2 := by
    rw [h.itineraries debug, hback.croppedEnd, happend]
    simp only [Cap.crop, List.take_append_of_le_length hlt.le]
  have hlater : (r.withCursor (links.toward .previous)).awaited timetable =
      (Cap.crop r.count .tail (r.awaited timetable)).1 := by
    rw [← Cap.filter_alreadyShown (awaited_pairwise hback timetable) hreport'
      (nodup_awaited r distinct), hcut, awaited, awaited, List.filter_filter]
    apply List.filter_congr
    intro it hit
    rw [awaits_of_cut transit debug hback h ho hw hl hcap (mem_listing.mp hit).1]
    have hstep := passedOver_neighbour_of_cut hl hcap it
    rw [hback.direction, hback.croppedEnd] at hstep
    rw [hstep]
  rw [hlater, hshown]
  exact (Cap.crop_append r.count .tail (r.awaited timetable)).symm

end bare

end SearchRequest

open SearchRequest

section backward
variable {timetable : List Itinerary} {p : Preferences} {r : SearchRequest}
  {ds : List PageDirection} {pages : List Page} {opens : Instant} {used : Span}
  (transit : ∀ it ∈ timetable, it.hasTransit) (distinct : (timetable.map Itinerary.key).Nodup)
  (bare : p.filter.IsBare) (debug : p.filter.debug = .off) (minutes : 1 ≤ p.paging.minMinutes)
include transit distinct bare debug minutes

/-- The pages of a walk are the front of what is still to come, unless the first one opens in a leap
second, was not cut, and something departs then. -/
theorem flatMap_prefix_awaited (walk : Walk (Searches timetable p) r ds pages)
    (hds : ∀ d ∈ ds, d = .previous) (hback : r.GoesBack) (ho : r.opens = some opens)
    (hw : r.window = some used)
    (hquiet : 0 < ds.length → ∀ page, pages.head? = some page → page.response.cap = none →
      opens.IsLeap → QuietFrom timetable opens) :
    pages.flatMap Page.itineraries <+: r.awaited timetable := by
  induction walk generalizing opens used with
  | @stop r resp served =>
    obtain ⟨policy, h⟩ := answers_of_respond served
    rw [List.flatMap_singleton]
    exact itineraries_prefix_awaited bare transit debug hback h ho hw
  | @turn r resp links d ds pages served linked rest ih =>
    obtain ⟨policy, h⟩ := answers_of_respond served
    obtain rfl := hds d List.mem_cons_self
    obtain ⟨_, _, ho', hw', hl⟩ := h.linked linked
    cases ho.symm.trans ho'
    have hminute := Span.le_iff.mp (minute_le_window minutes h linked .previous)
    have hlater := hback.neighbour transit debug minutes h linked ho hw' hl
    have hawaited : r.awaited timetable =
        resp.itineraries ++ (r.withCursor (links.toward .previous)).awaited timetable := by
      cases hcap : resp.cap with
      | none =>
        exact awaited_of_uncut bare transit debug hback h ho hw' hl hcap hminute
          (hquiet ds.length.succ_pos _ rfl hcap)
      | some report => exact awaited_of_cut bare transit debug hback h ho hw' hl distinct hcap
    rw [hawaited, List.flatMap_cons]
    -- Pages on the way back open in no leap second.
    exact (List.prefix_append_right_inj _).mpr
      (ih (fun d hd => hds d (List.mem_cons_of_mem _ hd)) hlater rfl rfl
        fun _ _ _ _ hleap => absurd hleap (hl.not_isLeap_previous hminute))

omit distinct in
/-- If they are, and the first one opens in a leap second and was not cut, then nothing departs in
the second from there on. -/
theorem quietFrom_of_flatMap_prefix (walk : Walk (Searches timetable p) r ds pages)
    (hds : ∀ d ∈ ds, d = .previous) (hback : r.GoesBack) (ho : r.opens = some opens)
    (hfront : pages.flatMap Page.itineraries <+: r.awaited timetable) (hmore : 0 < ds.length)
    {page : Page} (hpage : pages.head? = some page) (hcap : page.response.cap = none)
    (hleap : opens.IsLeap) : QuietFrom timetable opens := by
  cases walk with
  | stop => cases hmore
  | @turn _ resp links d ds pages served linked rest =>
    obtain ⟨policy, h⟩ := answers_of_respond served
    obtain rfl := hds d List.mem_cons_self
    obtain ⟨_, _, ho', hw, hl⟩ := h.linked linked
    cases ho.symm.trans ho'
    cases hpage
    have hminute := Span.le_iff.mp (minute_le_window minutes h linked .previous)
    have hlater := hback.neighbour transit debug minutes h linked ho hw hl
    obtain ⟨resp', others, served', rfl⟩ := rest.exists_cons
    obtain ⟨policy', h'⟩ := answers_of_respond served'
    exact quietFrom_of_prefix bare transit debug hback h ho hw hl hcap hminute hlater hleap h'
      hfront

end backward

/-- Pages of an arrive-by search, from the first one back in time, list the timetable: all that
departs before the first window closes, late departures first, with nothing left out and nothing
twice. This is so exactly if there is no second page, or the first one was cut, or it opens in no
leap second, or nothing departs in the second from there on. -/
theorem pages_prefix_timetable_iff {timetable : List Itinerary} {p : Preferences}
    {r : SearchRequest} (transit : ∀ it ∈ timetable, it.hasTransit)
    (distinct : (timetable.map Itinerary.key).Nodup) (bare : p.filter.IsBare)
    (debug : p.filter.debug = .off) (minutes : 1 ≤ p.paging.minMinutes)
    (arriveBy : r.arriveBy = true) (count : 1 ≤ r.count) (first : r.cursor = none)
    {opens : Instant} {used : Span} (ho : r.opens = some opens) (hw : r.window = some used)
    {n : Nat} {pages : List Page}
    (walk : Walk (Searches timetable p) r (List.replicate n .previous) pages) :
    pages.flatMap Page.itineraries <+:
      sortByRanks SortOrder.streetAndDeparture.ranks (timetable.filter fun it =>
        it.isKept && decide (it.start.ticks < opens.shift used.nanos)) ↔
    (0 < n → ∀ page, pages.head? = some page → page.response.cap = none → opens.IsLeap →
      QuietFrom timetable opens) := by
  have hds : ∀ d ∈ List.replicate n PageDirection.previous, d = .previous := fun d hd =>
    List.eq_of_mem_replicate hd
  have hback := goesBack_first arriveBy count first
  have hawaited : r.awaited timetable =
      sortByRanks SortOrder.streetAndDeparture.ranks (timetable.filter fun it =>
        it.isKept && decide (it.start.ticks < opens.shift used.nanos)) := by
    rw [awaited, listing, filter_sortByRanks, List.filter_filter]
    congr 1
    apply List.filter_congr
    intro it _
    rw [awaits_eq ho hw, passedOver, first, Bool.and_comm]
    simp
  rw [← hawaited]
  constructor
  · intro hfront hmore page hpage hcap hleap
    exact quietFrom_of_flatMap_prefix transit bare debug minutes walk hds hback ho hfront
      (by simpa using hmore) hpage hcap hleap
  · intro hquiet
    exact flatMap_prefix_awaited transit distinct bare debug minutes walk hds hback ho hw
      fun hmore => hquiet (by simpa using hmore)

/-! Pages of one ride: the fast one, the late one, and the slow one -/

section arrival

def arrival : SearchRequest := .first true 1 480 120

def arrivalTimetable : List Itinerary := [slowRide, fastRide, lateRide]

def secondArrival : PageCursor :=
  .ofMinutes .previous .streetAndDeparture 481 60 (some fastRide.key)

def thirdArrival : PageCursor := .ofMinutes .previous .streetAndDeparture 421 60 none

theorem searches_arrival : ∃ resp links, Searches arrivalTimetable .bare arrival resp ∧
    resp.links = some links ∧ links.toward .previous = secondArrival ∧
    resp.itineraries = [fastRide] := by
  have hoffered : arrival.offered Preferences.bare.filter (arrival.found arrivalTimetable) =
      [fastRide, lateRide, slowRide] := by
    rw [offered_bare]
    rfl
  exact ⟨_, _, searches_bare hoffered rfl, rfl, by decide +kernel, rfl⟩

theorem searches_secondArrival : ∃ resp links,
    Searches arrivalTimetable .bare (arrival.withCursor secondArrival) resp ∧
    resp.links = some links ∧ links.toward .previous = thirdArrival ∧
    resp.itineraries = [lateRide] := by
  have hoffered : (arrival.withCursor secondArrival).offered Preferences.bare.filter
      ((arrival.withCursor secondArrival).found arrivalTimetable) = [lateRide] := by
    rw [offered_bare]
    rfl
  exact ⟨_, _, searches_bare hoffered rfl, rfl, by decide +kernel, rfl⟩

theorem searches_thirdArrival : ∃ resp, Searches arrivalTimetable .bare
    ((arrival.withCursor secondArrival).withCursor thirdArrival) resp ∧
    resp.itineraries = [slowRide] := by
  have hoffered : ((arrival.withCursor secondArrival).withCursor thirdArrival).offered
      Preferences.bare.filter (((arrival.withCursor secondArrival).withCursor thirdArrival).found
        arrivalTimetable) = [slowRide] := by
    rw [offered_bare]
    rfl
  exact ⟨_, searches_bare hoffered rfl, rfl⟩

theorem pages_prefix_timetable_iff_arrival : ∃ pages,
    Walk (Searches arrivalTimetable .bare) arrival (List.replicate 2 .previous) pages ∧
    pages.flatMap Page.itineraries = [fastRide, lateRide, slowRide] ∧
    pages.flatMap Page.itineraries <+:
      sortByRanks SortOrder.streetAndDeparture.ranks (arrivalTimetable.filter fun it =>
        it.isKept && decide (it.start.ticks < (Instant.ofMinutes 600).ticks)) := by
  obtain ⟨resp₁, links₁, h₁, hlinks₁, hprevious₁, hshown₁⟩ := searches_arrival
  obtain ⟨resp₂, links₂, h₂, hlinks₂, hprevious₂, hshown₂⟩ := searches_secondArrival
  obtain ⟨resp₃, h₃, hshown₃⟩ := searches_thirdArrival
  have third := Walk.stop h₃
  rw [← hprevious₂] at third
  have second := Walk.turn h₂ hlinks₂ third
  rw [← hprevious₁] at second
  have walk : Walk _ arrival (List.replicate 2 .previous) _ := Walk.turn h₁ hlinks₁ second
  refine ⟨_, walk, ?_, ?_⟩
  · simp [Page.itineraries, hshown₁, hshown₂, hshown₃]
  · have transit : ∀ it ∈ arrivalTimetable, it.hasTransit := by decide
    have distinct : (arrivalTimetable.map Itinerary.key).Nodup := by decide
    have minutes : 1 ≤ Preferences.bare.paging.minMinutes := by decide
    have hiff := pages_prefix_timetable_iff transit distinct FilterPreferences.isBare_none rfl
      minutes rfl le_rfl rfl rfl rfl walk
    exact hiff.mpr fun _ _ _ _ hleap => absurd hleap (by decide)

end arrival

/-- The ride of the leap second in which the first page opens is on the second page again. -/
theorem exists_repeat_on_way_back : ¬ ∀ (timetable : List Itinerary) (p : Preferences)
    (r : SearchRequest) (opens : Instant) (used : Span) (n : Nat) (pages : List Page),
    (∀ it ∈ timetable, it.hasTransit) → (timetable.map Itinerary.key).Nodup →
    p.filter.IsBare → p.filter.debug = .off → 1 ≤ p.paging.minMinutes → r.arriveBy = true →
    1 ≤ r.count → r.cursor = none → r.opens = some opens → r.window = some used →
    Walk (Searches timetable p) r (List.replicate n .previous) pages →
    pages.flatMap Page.itineraries <+:
      sortByRanks SortOrder.streetAndDeparture.ranks (timetable.filter fun it =>
        it.isKept && decide (it.start.ticks < opens.shift used.nanos)) := by
  intro hall
  obtain ⟨resp, links, h, hlinks, hprevious, hshown⟩ := searches_leapArrival
  obtain ⟨resp', h', hshown'⟩ := searches_beforeLeap
  have second := Walk.stop h'
  rw [← hprevious] at second
  have walk : Walk _ leapArrival (List.replicate 1 .previous) _ := Walk.turn h hlinks second
  have hfront := hall [leapRide] .bare leapArrival leapSecond _ 1 _ (by decide) (by decide)
    FilterPreferences.isBare_none rfl (by decide) rfl (by decide) rfl rfl rfl walk
  have hlength := hfront.length_le
  rw [(sortByRanks_perm _ _).length_eq] at hlength
  simp only [List.flatMap_cons, List.flatMap_nil, Page.itineraries, hshown, hshown'] at hlength
  exact absurd hlength (by decide)

end JourneyPages
