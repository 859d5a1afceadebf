import JourneyPages.Proofs.Walk

/-!
Walks onward in time, with early arrivals first. Windows never step back, and as long as pages are
cut each knows what the pages in front of it have shown. A page that is not cut forgets: it hands on
no cut, and what was shown before it may come again, if it departs when that page has closed.
-/
namespace JourneyPages
namespace SearchRequest
variable {timetable : List Itinerary} {p : Preferences} {r : SearchRequest} {resp : Response}
  {policy : WindowPolicy} {opens : Instant} {used : Span} {links : PageLinks}

/-- When the window of the request closes. -/
def closes? (r : SearchRequest) : Option Instant := do (← r.opens).add? (← r.window)

/-! One step -/

/-- The page behind one that was not cut starts where that one closes. -/
theorem closes?_eq_opens (hl : r.page.Linked policy resp.cap opens used links)
    (ho : r.opens = some opens) (hw : r.window = some used) (hcap : resp.cap = none) :
    r.closes? = some links.next.opens := by
  have hopens := hl.opens_of_uncut fun _ => hcap
  simp only [closes?, ho, hw, Option.bind_eq_bind, Option.bind_some]
  exact Instant.add?_eq_some_iff.mpr hopens

/-- Windows never step back. -/
theorem opens_le_opens (transit : ∀ it ∈ timetable, it.hasTransit)
    (debug : p.filter.debug = .off) (h : r.Answers (r.found timetable) p policy resp)
    (ho : r.opens = some opens) (hw : r.window = some used)
    (hl : r.page.Linked policy resp.cap opens used links) :
    opens ≤ links.next.opens := by
  by_cases huncut : r.page.direction = .next → resp.cap = none
  · rw [Instant.le_iff, hl.opens_of_uncut huncut]
    exact Instant.le_shift (of_validate ho hw h.valid).1
  · obtain ⟨hd, hcap⟩ := Classical.not_imp.mp huncut
    obtain ⟨report, hcap⟩ := Option.ne_none_iff_exists'.mp hcap
    obtain ⟨last, hlast, hkey⟩ := exists_cut debug h hcap
    have hsearched := (of_mem_itineraries transit debug h ho hw hlast).2.1
    have hstart : last.start = report.cut.start := congrArg SortKey.start hkey
    rw [hl.opens_of_cut hd hcap, ← hstart]
    exact ((searches_iff ho hw).mp hsearched).1

end SearchRequest

/-- The page `u`, at place `m`, is the first one from `i` on that was not cut. -/
structure FirstUncut (pages : List Page) (i m : Nat) (u : Page) : Prop where
  le : i ≤ m
  getElem?_eq : pages[m]? = some u
  uncut : u.response.cap = none
  cut : ∀ l c, i ≤ l → l < m → pages[l]? = some c → c.response.cap.isSome

theorem firstUncut_zero {page : Page} {pages : List Page} (h : page.response.cap = none) :
    FirstUncut (page :: pages) 0 0 page :=
  ⟨le_rfl, rfl, h, fun l _ _ hl => absurd hl l.not_lt_zero⟩

namespace FirstUncut
variable {page u : Page} {pages : List Page} {i m : Nat}

theorem succ (h : FirstUncut pages i m u) : FirstUncut (page :: pages) (i + 1) (m + 1) u where
  le := Nat.succ_le_succ h.le
  getElem?_eq := h.getElem?_eq
  uncut := h.uncut
  cut l c hi hm hl := by
    cases l with
    | zero => cases hi
    | succ l => exact h.cut l c (Nat.le_of_succ_le_succ hi) (Nat.lt_of_succ_lt_succ hm) hl

theorem cons (h : FirstUncut pages 0 m u) (hpage : page.response.cap.isSome) :
    FirstUncut (page :: pages) 0 (m + 1) u where
  le := Nat.zero_le _
  getElem?_eq := h.getElem?_eq
  uncut := h.uncut
  cut l c hi hm hl := by
    cases l with
    | zero =>
      cases hl
      exact hpage
    | succ l => exact h.cut l c (Nat.zero_le l) (Nat.lt_of_succ_lt_succ hm) hl

end FirstUncut

open SearchRequest

section forward
variable {timetable : List Itinerary} {p : Preferences} {r : SearchRequest}
  {ds : List PageDirection} {pages : List Page} {opens : Instant} {used : Span}
  (transit : ∀ it ∈ timetable, it.hasTransit) (debug : p.filter.debug = .off)
include transit debug

/-- No page of a walk shows what departs before the first one opens. -/
theorem opens_le_of_mem_walk (walk : Walk (Searches timetable p) r ds pages)
    (hds : ∀ d ∈ ds, d = .next) (ho : r.opens = some opens) (hw : r.window = some used) :
    ∀ page ∈ pages, ∀ it ∈ page.itineraries, opens ≤ it.start := by
  induction walk generalizing opens used with
  | @stop r resp served =>
    intro page hpage it hit
    obtain rfl := List.mem_singleton.mp hpage
    obtain ⟨policy, h⟩ := answers_of_respond served
    have hstart := (of_mem_itineraries transit debug h ho hw hit).2.1
    exact ((searches_iff ho hw).mp hstart).1
  | @turn r resp links d ds pages served linked rest ih =>
    intro page hpage it hit
    obtain ⟨policy, h⟩ := answers_of_respond served
    obtain ⟨_, _, ho', hw', hl⟩ := h.linked linked
    obtain rfl := hds d List.mem_cons_self
    rcases List.mem_cons.mp hpage with rfl | hpage
    · have hstart := (of_mem_itineraries transit debug h ho hw hit).2.1
      exact ((searches_iff ho hw).mp hstart).1
    · have hlater := ih (fun d hd => hds d (List.mem_cons_of_mem _ hd)) rfl rfl page hpage it hit
      have hle := opens_le_opens transit debug h ho' hw' hl
      rw [ho] at ho'
      cases ho'
      exact hle.trans hlater

/-- A page that shows what was passed over comes behind one that was not cut. -/
theorem exists_firstUncut_of_passedOver (walk : Walk (Searches timetable p) r ds pages)
    (hds : ∀ d ∈ ds, d = .next) (hd : r.page.direction = .next) (ho : r.opens = some opens)
    (hw : r.window = some used) {it : Itinerary} (hpassed : r.passedOver it) {j : Nat} {b : Page}
    (hb : pages[j]? = some b) (hit : it ∈ b.itineraries) :
    ∃ m u closes, m < j ∧ FirstUncut pages 0 m u ∧
      u.request.closes? = some closes ∧ closes ≤ it.start := by
  induction walk generalizing opens used j with
  | @stop r resp served =>
    obtain ⟨policy, h⟩ := answers_of_respond served
    obtain rfl := List.mem_singleton.mp (List.mem_of_getElem? hb)
    have hnot := (of_mem_itineraries transit debug h ho hw hit).2.2
    rw [hpassed] at hnot
    cases hnot
  | @turn r resp links d ds pages served linked rest ih =>
    obtain ⟨policy, h⟩ := answers_of_respond served
    obtain rfl := hds d List.mem_cons_self
    have hds' : ∀ d ∈ ds, d = .next := fun d hd => hds d (List.mem_cons_of_mem _ hd)
    obtain ⟨_, _, ho', hw', hl⟩ := h.linked linked
    cases j with
    | zero =>
      cases hb
      have hnot := (of_mem_itineraries transit debug h ho hw hit).2.2
      rw [hpassed] at hnot
      cases hnot
    | succ j =>
      rw [List.getElem?_cons_succ] at hb
      cases hcap : resp.cap with
      | none =>
        refine ⟨0, ⟨r, resp⟩, links.next.opens, j.succ_pos, firstUncut_zero hcap, ?_, ?_⟩
        · exact closes?_eq_opens hl ho' hw' hcap
        · exact opens_le_of_mem_walk transit debug rest hds' rfl rfl b
            (List.mem_of_getElem? hb) it hit
      | some report =>
        have hlater := passedOver_of_passedOver transit debug h ho' hw' hl hcap hpassed
        rw [hd] at hlater
        obtain ⟨m, u, closes, hm, hfirst, hcloses⟩ :=
          ih hds' (direction_neighbour hl .next) rfl rfl hlater hb
        exact ⟨m + 1, u, closes, Nat.succ_lt_succ hm, hfirst.cons (by rw [hcap]; rfl), hcloses⟩

/-- A page that shows what an earlier page has shown comes behind one that was not cut and that had
closed by then. -/
theorem exists_firstUncut_of_repeat (walk : Walk (Searches timetable p) r ds pages)
    (hds : ∀ d ∈ ds, d = .next) (hd : r.page.direction = .next) {it : Itinerary} {i j : Nat}
    (hij : i < j) {a b : Page} (ha : pages[i]? = some a) (hb : pages[j]? = some b)
    (hita : it ∈ a.itineraries) (hitb : it ∈ b.itineraries) :
    ∃ m u closes, m < j ∧ FirstUncut pages i m u ∧
      u.request.closes? = some closes ∧ closes ≤ it.start := by
  induction walk generalizing i j with
  | @stop r resp served =>
    cases j with
    | zero => cases hij
    | succ j => cases hb
  | @turn r resp links d ds pages served linked rest ih =>
    obtain ⟨policy, h⟩ := answers_of_respond served
    obtain rfl := hds d List.mem_cons_self
    have hds' : ∀ d ∈ ds, d = .next := fun d hd => hds d (List.mem_cons_of_mem _ hd)
    obtain ⟨opens, used, ho, hw, hl⟩ := h.linked linked
    cases j with
    | zero => cases hij
    | succ j =>
      rw [List.getElem?_cons_succ] at hb
      cases i with
      | succ i =>
        obtain ⟨m, u, closes, hm, hfirst, hcloses⟩ :=
          ih hds' (direction_neighbour hl .next) (Nat.lt_of_succ_lt_succ hij) ha hb
        exact ⟨m + 1, u, closes, Nat.succ_lt_succ hm, hfirst.succ, hcloses⟩
      | zero =>
        cases ha
        cases hcap : resp.cap with
        | none =>
          refine ⟨0, ⟨r, resp⟩, links.next.opens, j.succ_pos, firstUncut_zero hcap, ?_, ?_⟩
          · exact closes?_eq_opens hl ho hw hcap
          · exact opens_le_of_mem_walk transit debug rest hds' rfl rfl b
              (List.mem_of_getElem? hb) it hitb
        | some report =>
          have hpassed := passedOver_of_shown debug h hl hcap hita
          rw [hd] at hpassed
          obtain ⟨m, u, closes, hm, hfirst, hcloses⟩ := exists_firstUncut_of_passedOver transit
            debug rest hds' (direction_neighbour hl .next) rfl rfl hpassed hb hitb
          exact ⟨m + 1, u, closes, Nat.succ_lt_succ hm, hfirst.cons (by rw [hcap]; rfl), hcloses⟩

end forward

/-- Two pages of a walk show nothing in common exactly if nothing of the first one that departs when
the first uncut page from there on has closed is on the second. -/
theorem disjoint_pages_iff {timetable : List Itinerary} {p : Preferences} {r : SearchRequest}
    (transit : ∀ it ∈ timetable, it.hasTransit) (debug : p.filter.debug = .off)
    (arriveBy : r.arriveBy = false) (first : r.cursor = none) {n : Nat} {pages : List Page}
    (walk : Walk (Searches timetable p) r (List.replicate n .next) pages) {i j : Nat} (hij : i < j)
    {a b : Page} (ha : pages[i]? = some a) (hb : pages[j]? = some b) :
    (∀ it ∈ a.itineraries, it ∉ b.itineraries) ↔
      ∀ m u closes, m < j → FirstUncut pages i m u → u.request.closes? = some closes →
        ∀ it ∈ a.itineraries, closes ≤ it.start → it ∉ b.itineraries := by
  have hd : r.page.direction = .next := by
    simp [page, PageRequest.direction, order, first, arriveBy, SortOrder.forSearch,
      SortOrder.ascending]
  have hds : ∀ d ∈ List.replicate n PageDirection.next, d = .next := fun d hd =>
    List.eq_of_mem_replicate hd
  constructor
  · intro hall m u closes _ _ _ it hit _
    exact hall it hit
  · intro hall it hita hitb
    obtain ⟨m, u, closes, hm, hfirst, hcloses, hle⟩ :=
      exists_firstUncut_of_repeat transit debug walk hds hd hij ha hb hita hitb
    exact hall m u closes hm hfirst hcloses it hita hle hitb

/-! Pages of two rides. The fast ride and the slow one are on the first page, and the late ride by
itself on the second, which is not cut and closes before the fast ride departs. -/

section commute

def commute : SearchRequest := .first false 2 480 120

def commuteTimetable : List Itinerary := [slowRide, fastRide, lateRide]

def secondCommute : PageCursor := .ofMinutes .next .streetAndArrival 480 40 (some slowRide.key)

def thirdCommute : PageCursor := .ofMinutes .next .streetAndArrival 520 160 none

theorem searches_commute : ∃ resp links,
    Searches commuteTimetable .bare commute resp ∧ resp.links = some links ∧
    links.toward .next = secondCommute ∧ resp.itineraries = [fastRide, slowRide] := by
  have hoffered : commute.offered Preferences.bare.filter (commute.found commuteTimetable) =
      [fastRide, slowRide, lateRide] := by
    rw [offered_bare]
    rfl
  exact ⟨_, _, searches_bare hoffered rfl, rfl, rfl, rfl⟩

theorem searches_secondCommute : ∃ resp links,
    Searches commuteTimetable .bare (commute.withCursor secondCommute) resp ∧
    resp.links = some links ∧ links.toward .next = thirdCommute := by
  have hoffered : (commute.withCursor secondCommute).offered Preferences.bare.filter
      ((commute.withCursor secondCommute).found commuteTimetable) = [lateRide] := by
    rw [offered_bare]
    rfl
  exact ⟨_, _, searches_bare hoffered rfl, rfl, rfl⟩

theorem searches_thirdCommute : ∃ resp, Searches commuteTimetable .bare
    ((commute.withCursor secondCommute).withCursor thirdCommute) resp ∧
    resp.itineraries = [fastRide] := by
  have hoffered : ((commute.withCursor secondCommute).withCursor thirdCommute).offered
      Preferences.bare.filter (((commute.withCursor secondCommute).withCursor thirdCommute).found
        commuteTimetable) = [fastRide] := by
    rw [offered_bare]
    rfl
  exact ⟨_, searches_bare hoffered rfl, rfl⟩

theorem walk_commute : ∃ a m b,
    Walk (Searches commuteTimetable .bare) commute (List.replicate 2 .next) [a, m, b] ∧
    fastRide ∈ a.itineraries ∧ fastRide ∈ b.itineraries := by
  obtain ⟨resp₁, links₁, h₁, hlinks₁, hnext₁, hshown₁⟩ := searches_commute
  obtain ⟨resp₂, links₂, h₂, hlinks₂, hnext₂⟩ := searches_secondCommute
  obtain ⟨resp₃, h₃, hshown₃⟩ := searches_thirdCommute
  have third := Walk.stop h₃
  rw [← hnext₂] at third
  have second := Walk.turn h₂ hlinks₂ third
  rw [← hnext₁] at second
  refine ⟨_, _, _, Walk.turn h₁ hlinks₁ second, ?_, ?_⟩
  · simp [Page.itineraries, hshown₁]
  · simp [Page.itineraries, hshown₃]

theorem disjoint_pages_iff_commute : ∃ pages a b,
    Walk (Searches commuteTimetable .bare) commute (List.replicate 2 .next) pages ∧
    pages[0]? = some a ∧ pages[2]? = some b ∧
    ((∀ it ∈ a.itineraries, it ∉ b.itineraries) ↔
      ∀ m u closes, m < 2 → FirstUncut pages 0 m u → u.request.closes? = some closes →
        ∀ it ∈ a.itineraries, closes ≤ it.start → it ∉ b.itineraries) := by
  obtain ⟨a, m, b, walk, -⟩ := walk_commute
  exact ⟨[a, m, b], a, b, walk, rfl, rfl,
    disjoint_pages_iff (by decide) rfl rfl rfl walk Nat.two_pos rfl rfl⟩

/-- The third page shows the fast ride again. -/
theorem exists_repeat : ¬ ∀ (timetable : List Itinerary) (p : Preferences) (r : SearchRequest)
    (n : Nat) (pages : List Page),
    (∀ it ∈ timetable, it.hasTransit) → (timetable.map Itinerary.key).Nodup →
    p.filter.debug = .off → p.paging = .standard → r.arriveBy = false → r.cursor = none →
    1 ≤ r.count → Walk (Searches timetable p) r (List.replicate n .next) pages →
    ∀ (i j : Nat) (a b : Page), i < j → pages[i]? = some a → pages[j]? = some b →
      ∀ it ∈ a.itineraries, it ∉ b.itineraries := by
  intro hall
  obtain ⟨a, m, b, walk, ha, hb⟩ := walk_commute
  exact hall commuteTimetable .bare commute 2 [a, m, b] (by decide) (by decide) rfl rfl rfl rfl
    (by decide) walk 0 2 a b Nat.two_pos rfl rfl fastRide ha hb

end commute
end JourneyPages
