import JourneyPages.Proofs.Filter.Spared
import JourneyPages.Proofs.Walk.Backward

/-!
One page onward and one page back. The page in front of the second page is searched anew, up to
where that one opens, and loses the head of its list and not the tail: it is the first page again
only if that one lost nothing, if the window reaches back to all of it, and if what else there is
comes in front of it and goes with the head. Where the second page opens in a leap second, at a cut
of the first one, the search goes on past that and may find what the first page was cut at.
-/
namespace JourneyPages

section crop
variable {o : SortOrder} {max : Nat} {sorted shown : List Itinerary}
  (hsorted : sorted.Pairwise fun a b => (o.compare a.key b.key).isLE)
  (hdistinct : (sorted.map Itinerary.key).Nodup)
include hsorted hdistinct

open Classical in
/-- Entries of a sorted list that are sorted themselves are the back of it if all else is in front
of them. -/
theorem filter_append_of_mem (hshown : shown.Pairwise fun a b => (o.compare a.key b.key).isLE)
    (hnodup : shown.Nodup) (hmem : ∀ it ∈ shown, it ∈ sorted)
    (hrest : ∀ it ∈ sorted, it ∉ shown → ∀ other ∈ shown, (o.compare it.key other.key).isLE) :
    sorted.filter (fun it => it ∉ shown) ++ shown = sorted := by
  have hinj := List.inj_on_of_nodup_map hdistinct
  have hfront : sorted.Pairwise fun a b => decide (b ∉ shown) → decide (a ∉ shown) := by
    apply hsorted.imp_of_mem
    intro a b ha hb hab hnot
    rw [decide_eq_true_eq] at *
    intro hshown
    have heq := hinj ha hb (SortOrder.eq_of_isLE_compare hab (hrest b hb hnot a hshown))
    exact hnot (heq ▸ hshown)
  have hback : sorted.filter (fun it => !decide (it ∉ shown)) = shown := by
    have hperm : (sorted.filter fun it => !decide (it ∉ shown)).Perm shown := by
      refine (List.perm_ext_iff_of_nodup (hdistinct.of_map.filter _) hnodup).mpr fun it => ?_
      simpa using hmem it
    refine hperm.eq_of_pairwise ?_ (hsorted.sublist List.filter_sublist) hshown
    intro a b ha hb hab hba
    exact hinj (List.mem_of_mem_filter ha) (hmem b hb) (SortOrder.eq_of_isLE_compare hab hba)
  conv_rhs => rw [← filter_append_rest hfront, hback]

/-- A crop at the head leaves just some sorted entries if they are in the list, and are as many as
it leaves and behind all else unless there is nothing else. -/
theorem crop_head_eq_iff (hshown : shown.Pairwise fun a b => (o.compare a.key b.key).isLE)
    (hnodup : shown.Nodup) (hmax : shown.length ≤ max) :
    (Cap.crop max .head sorted).2 = shown ↔
      (∀ it ∈ shown, it ∈ sorted) ∧ ∀ it ∈ sorted, it ∉ shown →
        shown.length = max ∧ ∀ other ∈ shown, (o.compare it.key other.key).isLE := by
  constructor
  · rintro rfl
    refine ⟨fun it hit => Cap.mem_of_mem_crop_snd _ hit, fun it hit hnot => ?_⟩
    have hdropped : it ∈ (Cap.crop max .head sorted).1 :=
      (Cap.mem_crop_of_mem .head hit).resolve_right hnot
    rw [← Cap.crop_append max .head sorted] at hsorted
    refine ⟨?_, fun other hother => (List.pairwise_append.mp hsorted).2.2 it hdropped other hother⟩
    have hpos := List.length_pos_of_mem hdropped
    rw [Cap.length_crop_fst] at hpos
    simp only [Cap.crop, List.length_drop]
    omega
  · classical
    rintro ⟨hmem, hrest⟩
    have hsplit := filter_append_of_mem hsorted hdistinct hshown hnodup hmem
      fun it hit hnot => (hrest it hit hnot).2
    rw [← hsplit]
    cases hfront : sorted.filter fun it => it ∉ shown with
    | nil => rw [List.nil_append, Cap.crop_of_length_le .head hmax]
    | cons it front =>
      have hit : it ∈ sorted.filter fun it => it ∉ shown := hfront ▸ List.mem_cons_self
      obtain ⟨hit, hnot⟩ := List.mem_filter.mp hit
      have hfull := (hrest it hit (of_decide_eq_true hnot)).1
      have hkept : (it :: front ++ shown).length - max = (it :: front).length := by
        rw [List.length_append]
        omega
      simp only [Cap.crop, hkept, List.drop_left]

end crop

namespace SearchRequest
variable {timetable : List Itinerary} {p : Preferences} {r : SearchRequest} {resp : Response}
  {policy : WindowPolicy} {opens : Instant} {used : Span} {links : PageLinks}

theorem Answers.sublist_offered {its : List Itinerary} (h : r.Answers its p policy resp)
    (debug : p.filter.debug = .off) : resp.itineraries.Sublist (r.offered p.filter its) := by
  rw [h.itineraries debug]
  cases r.croppedEnd
  · exact List.drop_sublist _ _
  · exact List.take_sublist _ _

theorem Answers.length_le {its : List Itinerary} (h : r.Answers its p policy resp)
    (debug : p.filter.debug = .off) : resp.itineraries.length ≤ r.count := by
  rw [h.itineraries debug]
  cases r.croppedEnd with
  | head =>
    simp only [Cap.crop, List.length_drop]
    omega
  | tail => exact List.length_take_le _ _

theorem Answers.mem_offered_iff {c : PageCursor}
    (h : (r.withCursor c).Answers ((r.withCursor c).found timetable) p policy resp)
    (transit : ∀ it ∈ timetable, it.hasTransit) (it : Itinerary) :
    it ∈ (r.withCursor c).offered p.filter ((r.withCursor c).found timetable) ↔
      it ∈ (r.withCursor c).ruled p.filter ((r.withCursor c).found timetable) ∧
        (r.withCursor c).searches it.start ∧ (r.withCursor c).passedOver it = false :=
  SearchRequest.mem_offered_iff rfl rfl h.valid (hasTransit_of_mem_found transit)

theorem nodup_found (r : SearchRequest) (distinct : (timetable.map Itinerary.key).Nodup) :
    ((r.found timetable).map Itinerary.key).Nodup :=
  distinct.sublist (List.filter_sublist.map Itinerary.key)

/-- A page that loses the head of its list has the list of another one of the same order and length
exactly if all of that comes to its cap, and all else that does is in front and too much. -/
theorem Answers.same_iff {r' : SearchRequest} {resp' : Response} {policy' : WindowPolicy}
    (distinct : (timetable.map Itinerary.key).Nodup) (debug : p.filter.debug = .off)
    (h : r.Answers (r.found timetable) p policy resp)
    (h' : r'.Answers (r'.found timetable) p policy' resp') (horder : r'.order = r.order)
    (hcount : r'.count = r.count) (hend : r'.croppedEnd = .head) :
    resp'.itineraries = resp.itineraries ↔
      (∀ it ∈ resp.itineraries, it ∈ r'.offered p.filter (r'.found timetable)) ∧
      ∀ it ∈ r'.offered p.filter (r'.found timetable), it ∉ resp.itineraries →
        resp.itineraries.length = r'.count ∧
          ∀ other ∈ resp.itineraries, (r.order.compare it.key other.key).isLE := by
  have hsublist := h.sublist_offered debug
  have hsorted := (r.offered_pairwise p.filter (r.found timetable)).sublist hsublist
  have hnodup := ((nodup_offered r p.filter (r.nodup_found distinct)).sublist
    (hsublist.map Itinerary.key)).of_map
  have hsorted' := r'.offered_pairwise p.filter (r'.found timetable)
  rw [horder] at hsorted'
  have hlength := h.length_le debug
  rw [← hcount] at hlength
  rw [h'.itineraries debug, hend]
  exact crop_head_eq_iff hsorted' (nodup_offered r' p.filter (r'.nodup_found distinct)) hsorted
    hnodup hlength

/-- What the request for each page of a walk onward by departure satisfies. -/
structure GoesOn (r : SearchRequest) : Prop where
  order : r.order = .streetAndArrival
  direction : r.page.direction = .next

theorem goesOn_first (arriveBy : r.arriveBy = false) (first : r.cursor = none) : r.GoesOn where
  order := by simp [order, first, arriveBy, SortOrder.forSearch]
  direction := by
    simp [page, PageRequest.direction, order, first, arriveBy, SortOrder.forSearch,
      SortOrder.ascending]

namespace GoesOn
variable (on : r.GoesOn) (hl : r.page.Linked policy resp.cap opens used links)
include on

theorem croppedEnd : r.croppedEnd = .tail := by
  rw [croppedEnd_eq, on.direction, on.order]
  rfl

include hl

theorem neighbour : (r.withCursor (links.toward .next)).GoesOn where
  order := (order_neighbour hl .next).trans on.order
  direction := direction_neighbour hl .next

/-- The page in front of one on the way on loses the head of its list. -/
theorem croppedEnd_previous : (r.withCursor (links.toward .previous)).croppedEnd = .head := by
  rw [croppedEnd_neighbour hl, on.direction, on.croppedEnd]
  rfl

/-- It passes over what is not in front of the cut of the page behind it. -/
theorem passedOver_previous_iff (it : Itinerary) :
    (r.withCursor (links.toward .previous)).passedOver it = false ↔
      ∀ report, resp.cap = some report →
        SortOrder.streetAndArrival.compare it.key report.cut = .lt := by
  have hend : (links.toward .previous).croppedEnd = .head := on.croppedEnd_previous hl
  have horder : (links.toward .previous).order = .streetAndArrival :=
    (order_neighbour hl .previous).trans on.order
  rw [passedOver_withCursor_iff, hl.cut .previous]
  simp only [PageCursor.Passes, hend, horder, Option.map_eq_some_iff, forall_exists_index, and_imp]
  constructor
  · intro h report hcap
    exact h _ report hcap rfl
  · rintro h _ report hcap rfl
    exact h report hcap

/-- It closes where the page behind it opens, if that is in no leap second. -/
theorem lt_opens_of_searches (hleap : ¬ opens.IsLeap) {t : Instant}
    (ht : (r.withCursor (links.toward .previous)).searches t) : t < opens := by
  have huncut : r.page.direction = .previous → resp.cap = none := fun hd => by
    rw [on.direction] at hd
    cases hd
  have hsearched := ((searches_iff (r := r.withCursor (links.toward .previous)) rfl rfl).mp ht).2
  simp only [PageLinks.toward, hl.closes_of_uncut huncut hleap] at hsearched
  exact hsearched

end GoesOn
end SearchRequest

open SearchRequest

/-- What it takes for a page `c` to show what page `a` has shown, by way of a page `b` behind both. -/
structure LandsOn (timetable : List Itinerary) (p : Preferences) (a b c : Page) : Prop where
  /-- Nothing was taken off `a`, unless `b` opens in a leap second. -/
  uncut : ∀ opens, b.request.opens = some opens → ¬ opens.IsLeap → a.response.cap = none
  /-- The window of `c` reaches back to all that was shown. -/
  reached : ∀ it ∈ a.itineraries, c.request.searches it.start
  /-- All that was shown is in front of the cut of `b`. -/
  ahead : ∀ it ∈ a.itineraries, ∀ report, b.response.cap = some report →
    SortOrder.streetAndArrival.compare it.key report.cut = .lt
  /-- The rules keep it beside the other itineraries that are found for `c`. -/
  kept : ∀ it ∈ a.itineraries, it ∈ c.request.ruled p.filter (c.request.found timetable)
  /-- It fills the page and is behind those others, if there are any that come to the cap. -/
  last : ∀ it ∈ c.request.offered p.filter (c.request.found timetable), it ∉ a.itineraries →
    a.itineraries.length = c.request.count ∧ ∀ other ∈ a.itineraries,
      (SortOrder.streetAndArrival.compare it.key other.key).isLE

section turn
variable {timetable : List Itinerary} {p : Preferences} {r : SearchRequest}
  {resp₁ resp₂ resp₃ : Response} {links₁ links₂ : PageLinks}
  (transit : ∀ it ∈ timetable, it.hasTransit) (debug : p.filter.debug = .off) (on : r.GoesOn)
  (served₁ : Searches timetable p r resp₁) (linked₁ : resp₁.links = some links₁)
  (served₂ : Searches timetable p (r.withCursor (links₁.toward .next)) resp₂)
  (linked₂ : resp₂.links = some links₂)
  (served₃ : Searches timetable p
    ((r.withCursor (links₁.toward .next)).withCursor (links₂.toward .previous)) resp₃)
include transit debug on served₁ linked₁ served₂ linked₂ served₃

/-- Where a page was cut the next one opens, and so the page in front of that one lacks the ride
with the key of the cut, if it departs in no leap second. -/
theorem uncut_of_same (hleap : ¬ links₁.next.opens.IsLeap)
    (hsame : resp₃.itineraries = resp₁.itineraries) : resp₁.cap = none := by
  obtain ⟨policy₁, h₁⟩ := answers_of_respond served₁
  obtain ⟨policy₂, h₂⟩ := answers_of_respond served₂
  obtain ⟨policy₃, h₃⟩ := answers_of_respond served₃
  obtain ⟨_, _, -, -, hl₁⟩ := h₁.linked linked₁
  obtain ⟨_, _, ho, -, hl₂⟩ := h₂.linked linked₂
  cases ho
  by_contra hcut
  obtain ⟨report, hcap⟩ := Option.ne_none_iff_exists'.mp hcut
  obtain ⟨it, hit, hkey⟩ := exists_cut debug h₁ hcap
  rw [← hsame] at hit
  have hsearched := (of_mem_itineraries transit debug h₃ rfl rfl hit).2.1
  have hbefore := (on.neighbour hl₁).lt_opens_of_searches hl₂ hleap hsearched
  have hopens := hl₁.opens_of_cut on.direction hcap
  have hstart : it.start = report.cut.start := congrArg SortKey.start hkey
  rw [hstart, ← hopens] at hbefore
  exact lt_irrefl _ hbefore

/-- The page in front of the next one has the list of the page itself exactly if it lands on it. -/
theorem same_iff_landsOn (distinct : (timetable.map Itinerary.key).Nodup) :
    resp₃.itineraries = resp₁.itineraries ↔ LandsOn timetable p ⟨r, resp₁⟩
      ⟨r.withCursor (links₁.toward .next), resp₂⟩
      ⟨(r.withCursor (links₁.toward .next)).withCursor (links₂.toward .previous), resp₃⟩ := by
  have huncut := uncut_of_same transit debug on served₁ linked₁ served₂ linked₂ served₃
  obtain ⟨policy₁, h₁⟩ := answers_of_respond served₁
  obtain ⟨policy₂, h₂⟩ := answers_of_respond served₂
  obtain ⟨policy₃, h₃⟩ := answers_of_respond served₃
  obtain ⟨_, _, -, -, hl₁⟩ := h₁.linked linked₁
  obtain ⟨_, _, -, -, hl₂⟩ := h₂.linked linked₂
  have on₂ := on.neighbour hl₁
  have hpassed := on₂.passedOver_previous_iff hl₂
  have hoffered := h₃.mem_offered_iff transit
  have horder := (order_neighbour hl₂ .previous).trans (order_neighbour hl₁ .next)
  have hsame := h₁.same_iff distinct debug h₃ horder rfl (on₂.croppedEnd_previous hl₂)
  rw [on.order] at hsame
  constructor
  · intro heq
    obtain ⟨hmem, hlast⟩ := hsame.mp heq
    have hall := fun it hit => (hoffered it).mp (hmem it hit)
    exact {
      uncut := fun _ ho hleap => huncut (Option.some.inj ho ▸ hleap) heq
      reached := fun it hit => (hall it hit).2.1
      ahead := fun it hit => (hpassed it).mp (hall it hit).2.2
      kept := fun it hit => (hall it hit).1
      last := hlast }
  · intro h
    refine hsame.mpr ⟨fun it hit => (hoffered it).mpr ?_, h.last⟩
    exact ⟨h.kept it hit, h.reached it hit, (hpassed it).mpr (h.ahead it hit)⟩

end turn

/-- One page onward and one page back from a page of a walk onward by departure, the list is the same
again exactly if the last page lands on the first. -/
theorem same_on_return_iff {timetable : List Itinerary} {p : Preferences} {r : SearchRequest}
    (transit : ∀ it ∈ timetable, it.hasTransit) (distinct : (timetable.map Itinerary.key).Nodup)
    (debug : p.filter.debug = .off) (arriveBy : r.arriveBy = false) (first : r.cursor = none)
    {n : Nat} {pages : List Page}
    (walk : Walk (Searches timetable p) r (List.replicate n .next ++ [.next, .previous]) pages)
    {a b c : Page} (ha : pages[n]? = some a) (hb : pages[n + 1]? = some b)
    (hc : pages[n + 2]? = some c) :
    c.itineraries = a.itineraries ↔ LandsOn timetable p a b c := by
  have on := goesOn_first arriveBy first
  clear arriveBy first
  induction n generalizing r pages with
  | zero =>
    cases walk with
    | turn served₁ linked₁ rest =>
      cases rest with
      | turn served₂ linked₂ rest =>
        cases rest with
        | stop served₃ =>
          cases ha
          cases hb
          cases hc
          exact same_iff_landsOn transit debug on served₁ linked₁ served₂ linked₂ served₃ distinct
  | succ n ih =>
    rw [List.replicate_succ, List.cons_append] at walk
    cases walk with
    | turn served linked rest =>
      obtain ⟨policy, h⟩ := answers_of_respond served
      obtain ⟨_, _, -, -, hl⟩ := h.linked linked
      exact ih rest ha hb hc (on.neighbour hl)

/-- What comes to the cap of a search under the standard rules, sorted by insertion. -/
theorem SearchRequest.offered_standard (r : SearchRequest) {timetable : List Itinerary}
    (lone : LoneRides timetable) : r.offered Preferences.standard.filter (r.found timetable) =
      ((r.found timetable).filter (r.plan .standard []).admits).insertionSort fun a b =>
        (r.order.compare a.key b.key).isLE = true := by
  have hplan := r.plan_eq .standard
  have hfound : LoneRides (r.found timetable) := lone.filter _
  obtain ⟨hoffered, -⟩ := Plan.offered_eq_ruled (p := r.plan .standard []) (by rw [hplan])
    (r.found timetable)
  have horder : (r.plan .standard []).order = r.order := by rw [hplan]
  rw [Plan.ruled_standard (by rw [hplan]) (by rw [hplan]) hfound, horder,
    sortByRanks_eq_insertionSort] at hoffered
  exact hoffered

/-! Three rides on trips of their own, on pages of one, under the standard preferences. The second
page was cut at a ride that departs when the third page opens, and the page in front of that one
shows the first ride in its place. -/

section roundTrip

/-- The leg on another trip of its feed. -/
def Leg.onTrip (name : String) (hname : name ≠ "") (l : Leg) : Leg :=
  { l with travel := match l.travel with
      | .transit route trip => .transit route { trip with name := name, name_ne_empty := hname }
      | .street mode rented => .street mode rented }

def Itinerary.onTrip (name : String) (hname : name ≠ "") (it : Itinerary) : Itinerary :=
  { it with
    legs := it.legs.map (Leg.onTrip name hname)
    legs_ne_nil := by simpa using it.legs_ne_nil
    legs_inOrder := List.pairwise_map.mpr it.legs_inOrder }

def firstRide : Itinerary := .ride 480 30

def secondRide : Itinerary := (Itinerary.ride 490 30).onTrip "U" (by decide)

def thirdRide : Itinerary := (Itinerary.ride 500 30).onTrip "V" (by decide)

def threeRides : List Itinerary := [firstRide, secondRide, thirdRide]

def roundTrip : SearchRequest := .first false 1 480 120

def towardSecond : SearchRequest :=
  roundTrip.withCursor (.ofMinutes .next .streetAndArrival 480 40 (some firstRide.key))

def towardThird : SearchRequest :=
  towardSecond.withCursor (.ofMinutes .next .streetAndArrival 490 40 (some secondRide.key))

def backAgain : SearchRequest :=
  towardThird.withCursor (.ofMinutes .previous .streetAndArrival 450 40 none)

theorem loneRides_threeRides : LoneRides threeRides where
  kept := by decide
  single := by
    simp only [threeRides, List.forall_mem_cons]
    exact ⟨⟨_, _, rfl, rfl⟩, ⟨_, _, rfl, rfl⟩, ⟨_, _, rfl, rfl⟩, List.forall_mem_nil _⟩
  apart := by decide
  sameCost := by decide
  withinTwice := by decide +kernel

theorem searches_roundTrip : ∃ resp links, Searches threeRides .standard roundTrip resp ∧
    resp.links = some links ∧ roundTrip.withCursor (links.toward .next) = towardSecond := by
  have hoffered : roundTrip.offered Preferences.standard.filter (roundTrip.found threeRides) =
      [firstRide, secondRide, thirdRide] := by
    rw [offered_standard _ loneRides_threeRides]
    rfl
  exact ⟨_, _, searches_of_paged rfl hoffered rfl, rfl, rfl⟩

theorem searches_towardSecond : ∃ resp links, Searches threeRides .standard towardSecond resp ∧
    resp.links = some links ∧ towardSecond.withCursor (links.toward .next) = towardThird ∧
    resp.itineraries = [secondRide] := by
  have hoffered : towardSecond.offered Preferences.standard.filter
      (towardSecond.found threeRides) = [secondRide, thirdRide] := by
    rw [offered_standard _ loneRides_threeRides]
    rfl
  exact ⟨_, _, searches_of_paged rfl hoffered rfl, rfl, rfl, rfl⟩

theorem searches_towardThird : ∃ resp links, Searches threeRides .standard towardThird resp ∧
    resp.links = some links ∧ towardThird.withCursor (links.toward .previous) = backAgain := by
  have hoffered : towardThird.offered Preferences.standard.filter
      (towardThird.found threeRides) = [thirdRide] := by
    rw [offered_standard _ loneRides_threeRides]
    rfl
  exact ⟨_, _, searches_of_paged rfl hoffered rfl, rfl, rfl⟩

theorem searches_backAgain : ∃ resp, Searches threeRides .standard backAgain resp ∧
    resp.itineraries = [firstRide] := by
  have hoffered : backAgain.offered Preferences.standard.filter (backAgain.found threeRides) =
      [firstRide] := by
    rw [offered_standard _ loneRides_threeRides]
    rfl
  exact ⟨_, searches_of_paged rfl hoffered rfl, rfl⟩

theorem walk_roundTrip : ∃ pages a b c, Walk (Searches threeRides .standard) roundTrip
      (List.replicate 1 .next ++ [.next, .previous]) pages ∧
    pages[1]? = some a ∧ pages[2]? = some b ∧ pages[3]? = some c ∧
    a.itineraries = [secondRide] ∧ c.itineraries = [firstRide] := by
  obtain ⟨resp₁, links₁, h₁, hlinks₁, hsecond⟩ := searches_roundTrip
  obtain ⟨resp₂, links₂, h₂, hlinks₂, hthird, hshown₂⟩ := searches_towardSecond
  obtain ⟨resp₃, links₃, h₃, hlinks₃, hback⟩ := searches_towardThird
  obtain ⟨resp₄, h₄, hshown₄⟩ := searches_backAgain
  have fourth := Walk.stop h₄
  rw [← hback] at fourth
  have third := Walk.turn h₃ hlinks₃ fourth
  rw [← hthird] at third
  have second := Walk.turn h₂ hlinks₂ third
  rw [← hsecond] at second
  exact ⟨_, _, _, _, Walk.turn h₁ hlinks₁ second, rfl, rfl, rfl, hshown₂, hshown₄⟩

theorem same_on_return_iff_roundTrip : ∃ pages a b c,
    Walk (Searches threeRides .standard) roundTrip
      (List.replicate 1 .next ++ [.next, .previous]) pages ∧
    pages[1]? = some a ∧ pages[2]? = some b ∧ pages[3]? = some c ∧
    (c.itineraries = a.itineraries ↔ LandsOn threeRides .standard a b c) := by
  obtain ⟨pages, a, b, c, walk, ha, hb, hc, -, -⟩ := walk_roundTrip
  exact ⟨pages, a, b, c, walk, ha, hb, hc, same_on_return_iff
    loneRides_threeRides.hasTransit (by decide) rfl rfl rfl walk ha hb hc⟩

/-- The page in front of the third one is not the second one. -/
theorem exists_other_on_return : ¬ ∀ (timetable : List Itinerary) (r : SearchRequest) (n : Nat)
    (pages : List Page) (a b c : Page),
    (∀ it ∈ timetable, it.hasTransit) → (timetable.map Itinerary.key).Nodup →
    r.arriveBy = false → r.cursor = none → 1 ≤ r.count →
    Walk (Searches timetable .standard) r (List.replicate n .next ++ [.next, .previous]) pages →
    pages[n]? = some a → pages[n + 1]? = some b → pages[n + 2]? = some c →
    c.itineraries = a.itineraries := by
  intro hall
  obtain ⟨pages, a, b, c, walk, ha, hb, hc, hsecond, hfirst⟩ := walk_roundTrip
  have hsame := hall threeRides roundTrip 1 pages a b c loneRides_threeRides.hasTransit (by decide)
    rfl rfl (by decide) walk ha hb hc
  rw [hsecond, hfirst] at hsame
  have hstart := congrArg (List.map Itinerary.start) hsame
  exact absurd hstart (by decide)

end roundTrip
end JourneyPages
