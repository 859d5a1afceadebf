import JourneyPages.Proofs.Walk

/-!
What a page passes over because it knows the cut of its neighbour. It takes all on the near side of
the cut for shown, yet the neighbour has shown only what came to its cap.
-/
namespace JourneyPages
namespace SearchRequest
variable {r : SearchRequest} {p : Preferences} {resp : Response}

/-- In the run for the request, `it` is rejected as shown on the page that the request comes
from. -/
def Skips (r : SearchRequest) (p : FilterPreferences) (its : List Itinerary) (it : Itinerary) :
    Prop :=
  ∃ cut, r.cursor.bind PageCursor.cut = some cut ∧
    Stage.RejectsIn ((r.plan p []).chain.stages.map (·.2)) its
      (.reject (.alreadyShown r.order r.croppedEnd.opposite cut)) it

theorem passedOver_of_skips {p : FilterPreferences} {its : List Itinerary} {it : Itinerary}
    (h : r.Skips p its it) : r.passedOver it := by
  obtain ⟨cut, hcut, hrejects⟩ := h
  rw [passedOver, hcut, Option.any_some]
  exact hrejects.rejectsAlone fun _ => rfl

/-- What is skipped departs in the window. -/
theorem searches_of_skips {p : FilterPreferences} {timetable : List Itinerary} {it : Itinerary}
    (h : r.Skips p (r.found timetable) it) : r.searches it.start := by
  obtain ⟨cut, hcut, hrejects⟩ := h
  obtain ⟨found, hfound, rfl⟩ :=
    hrejects.exists_untagged (Plan.retains_of_mem_chain (by rw [plan_eq]))
  exact (List.mem_filter.mp hfound).2

/-- Without rules, all that departs in the window and was passed over is skipped. -/
theorem skips_of_isBare {p : FilterPreferences} (hbare : p.IsBare) {its : List Itinerary}
    {it : Itinerary} (hit : it ∈ its) (hkept : it.isKept)
    (hinside : (r.opens.bind fun opens => r.window.map fun w => (opens, w)).all fun x =>
      !(Flagger.outsideWindow x.1 x.2).rejectsAlone it)
    (hpassed : r.passedOver it) : r.Skips p its it := by
  rw [passedOver, Option.any_eq_true] at hpassed
  obtain ⟨cut, hcut, hrejects⟩ := hpassed
  refine ⟨cut, hcut, ?_⟩
  have horder : (r.plan p []).order = r.order := by rw [plan_eq]
  have hshown : (r.plan p []).shown = some (cut, r.croppedEnd.opposite) := by
    rw [plan_eq, hcut]
    rfl
  have hplan := Plan.rejectsIn_shown (by rw [plan_eq]) (by rw [plan_eq]; exact hbare) hshown hit
    hkept (by rw [plan_eq]; exact hinside) (by rw [horder]; exact hrejects)
  rw [horder] at hplan
  exact hplan

/-- On both sides of a cut there is no more than the cut itself. -/
theorem key_eq_of_alreadyShown {order : SortOrder} {side : ListEnd} {cut : SortKey}
    {it : Itinerary} (h : (Flagger.alreadyShown order side cut).rejectsAlone it)
    (h' : (Flagger.alreadyShown order side.opposite cut).rejectsAlone it) : it.key = cut := by
  have heq : order.compare it.key cut = .eq := by
    cases side <;> cases hc : order.compare it.key cut <;>
      simp_all [Flagger.rejectsAlone, ListEnd.opposite]
  exact Std.LawfulEqCmp.eq_of_compare heq

/-- What a page shows and its neighbour against the direction of the page passes over is the cut. -/
theorem key_eq_cut_of_passedOver {its : List Itinerary} {policy : WindowPolicy} {opens : Instant}
    {used : Span} {links : PageLinks} {report : CapReport} {it : Itinerary} {d : PageDirection}
    (debug : p.filter.debug = .off) (h : r.Answers its p policy resp)
    (hl : r.page.Linked policy resp.cap opens used links) (hd : r.page.direction ≠ d)
    (hcap : resp.cap = some report) (hit : it ∈ resp.itineraries)
    (hpassed : (r.withCursor (links.toward d)).passedOver it) : it.key = report.cut := by
  rw [h.itineraries debug] at hit
  have hshown := Cap.alreadyShown_of_mem_kept (r.offered_pairwise _ _)
    (h.cap.symm.trans hcap) hit
  rw [passedOver_neighbour hl, croppedEnd_neighbour hl, if_neg hd, hcap, Option.any_some] at hpassed
  exact key_eq_of_alreadyShown hshown hpassed

/-- In the direction of the page, what came to the cap and is passed over was shown, unless it is an
equal of the cut. -/
theorem mem_itineraries_of_passedOver {timetable : List Itinerary} {policy : WindowPolicy}
    {opens : Instant} {used : Span} {links : PageLinks} {it : Itinerary}
    (debug : p.filter.debug = .off) (h : r.Answers (r.found timetable) p policy resp)
    (hl : r.page.Linked policy resp.cap opens used links)
    (hoffered : it ∈ r.offered p.filter (r.found timetable))
    (hpassed : (r.withCursor (links.toward r.page.direction)).passedOver it)
    (htwin : ∀ report, resp.cap = some report → it.key = report.cut → it ∈ resp.itineraries) :
    it ∈ resp.itineraries := by
  cases hcap : resp.cap with
  | none =>
    rw [passedOver_neighbour hl, hcap] at hpassed
    cases hpassed
  | some report =>
    rw [passedOver_neighbour_of_cut hl hcap] at hpassed
    rcases Cap.mem_crop_of_mem r.croppedEnd hoffered with hdropped | hkept
    · have hreport := h.cap.symm.trans hcap
      have hkey := Cap.key_eq_cut_of_mem_dropped (r.offered_pairwise _ _) hreport hdropped hpassed
      exact htwin report hcap hkey
    · rw [h.itineraries debug]
      exact hkept

/-- What a neighbour skips was on the page exactly if it had come to the cap there, and if it was
not one of several equals of the cut that the cap took off. Against the direction of the page, where
the two windows have nothing in common but in a leap second, it can be none but the cut. -/
theorem skips_shown_iff {timetable : List Itinerary} (transit : ∀ it ∈ timetable, it.hasTransit)
    (debug : p.filter.debug = .off) (h : Searches timetable p r resp) {links : PageLinks}
    (hlinks : resp.links = some links) (d : PageDirection) :
    (∀ it, (r.withCursor (links.toward d)).Skips p.filter
        ((r.withCursor (links.toward d)).found timetable) it → it ∈ resp.itineraries) ↔
      ∀ it, (r.withCursor (links.toward d)).Skips p.filter
        ((r.withCursor (links.toward d)).found timetable) it →
        it ∈ r.offered p.filter (r.found timetable) ∧
        ∀ report, resp.cap = some report →
          (r.page.direction ≠ d → it.key = report.cut ∧ ∃ opens ∈ r.opens, opens.IsLeap) ∧
          (it.key = report.cut → it ∈ resp.itineraries) := by
  obtain ⟨policy, hanswers⟩ := answers_of_respond h
  obtain ⟨opens, used, ho, hw, hlinked⟩ := hanswers.linked hlinks
  constructor
  · intro hall it hit
    have hmem := hall it hit
    have hoffered : it ∈ r.offered p.filter (r.found timetable) := by
      rw [hanswers.itineraries debug] at hmem
      exact Cap.mem_of_mem_crop_snd _ hmem
    refine ⟨hoffered, fun report hcap => ⟨fun hd => ⟨?_, opens, ho, ?_⟩, fun _ => hmem⟩⟩
    · exact key_eq_cut_of_passedOver debug hanswers hlinked hd hcap hmem (passedOver_of_skips hit)
    · have hfound := hasTransit_of_mem_found (r := r) transit
      have hsearched := (of_mem_offered ho hw hanswers.valid hfound hoffered).2.2.1
      exact (isLeap_of_searches_of_uncut hlinked d ho hw (absurd · hd) hsearched
        (searches_of_skips hit)).2.1
  · intro hall it hit
    obtain ⟨hoffered, hcut⟩ := hall it hit
    by_cases hd : r.page.direction = d
    · subst hd
      exact mem_itineraries_of_passedOver debug hanswers hlinked hoffered
        (passedOver_of_skips hit) fun report hcap => (hcut report hcap).2
    · obtain ⟨cut, hcursor, -⟩ := hit
      have hmap : resp.cap.map CapReport.cut = some cut := (hlinked.cut d).symm.trans hcursor
      obtain ⟨report, hcap, -⟩ := Option.map_eq_some_iff.mp hmap
      obtain ⟨hkey, hshown⟩ := hcut report hcap
      exact hshown (hkey hd).1

end SearchRequest

/-! A page of one ride: the slow one, with the quick one still to depart -/

section shortSearch
open SearchRequest

def shortTimetable : List Itinerary := [slowRide, lateRide, quickRide]

def shortSearch : SearchRequest := .first false 1 480 30

/-- The next page starts over, for forty minutes. -/
def afterSlow : PageCursor := .ofMinutes .next .streetAndArrival 480 40 (some slowRide.key)

theorem searches_shortSearch : ∃ resp links,
    Searches shortTimetable .bare shortSearch resp ∧ resp.links = some links ∧
    links.toward .next = afterSlow ∧ resp.itineraries = [slowRide] := by
  have hoffered : shortSearch.offered Preferences.bare.filter (shortSearch.found shortTimetable) =
      [slowRide, lateRide] := by
    rw [offered_bare]
    rfl
  exact ⟨_, _, searches_bare hoffered rfl, rfl, rfl, rfl⟩

theorem searches_afterSlow :
    ∃ resp, Searches shortTimetable .bare (shortSearch.withCursor afterSlow) resp := by
  have hoffered : (shortSearch.withCursor afterSlow).offered Preferences.bare.filter
      ((shortSearch.withCursor afterSlow).found shortTimetable) = [lateRide] := by
    rw [offered_bare]
    rfl
  exact ⟨_, searches_bare hoffered rfl⟩

theorem skips_quickRide : (shortSearch.withCursor afterSlow).Skips Preferences.bare.filter
    ((shortSearch.withCursor afterSlow).found shortTimetable) quickRide := by
  have hfound : (shortSearch.withCursor afterSlow).found shortTimetable = shortTimetable := rfl
  rw [hfound]
  exact skips_of_isBare FilterPreferences.isBare_none (by simp [shortTimetable]) rfl rfl rfl

theorem skips_shown_iff_shortTimetable : ∃ resp links,
    Searches shortTimetable .bare shortSearch resp ∧ resp.links = some links ∧
    ((∀ it, (shortSearch.withCursor (links.toward .next)).Skips Preferences.bare.filter
        ((shortSearch.withCursor (links.toward .next)).found shortTimetable) it →
        it ∈ resp.itineraries) ↔
      ∀ it, (shortSearch.withCursor (links.toward .next)).Skips Preferences.bare.filter
        ((shortSearch.withCursor (links.toward .next)).found shortTimetable) it →
        it ∈ shortSearch.offered Preferences.bare.filter (shortSearch.found shortTimetable) ∧
        ∀ report, resp.cap = some report →
          (shortSearch.page.direction ≠ .next →
            it.key = report.cut ∧ ∃ opens ∈ shortSearch.opens, opens.IsLeap) ∧
          (it.key = report.cut → it ∈ resp.itineraries)) := by
  obtain ⟨resp, links, hresp, hlinks, -⟩ := searches_shortSearch
  exact ⟨resp, links, hresp, hlinks, skips_shown_iff (by decide) rfl hresp hlinks .next⟩

/-- The quick ride is taken for shown although it departs after the first window. -/
theorem exists_skipped_not_shown : ¬ ∀ (r : SearchRequest) (timetable : List Itinerary)
    (p : Preferences) (resp : Response) (links : PageLinks) (d : PageDirection) (resp' : Response),
    (∀ it ∈ timetable, it.hasTransit) → p.filter.debug = .off → Searches timetable p r resp →
    resp.links = some links → Searches timetable p (r.withCursor (links.toward d)) resp' →
    ∀ it, (r.withCursor (links.toward d)).Skips p.filter
      ((r.withCursor (links.toward d)).found timetable) it → it ∈ resp.itineraries := by
  intro hall
  obtain ⟨resp, links, hresp, hlinks, hnext, hshown⟩ := searches_shortSearch
  obtain ⟨resp', hresp'⟩ := searches_afterSlow
  have hskips := skips_quickRide
  rw [← hnext] at hresp' hskips
  have hmem := hall shortSearch shortTimetable .bare resp links .next resp' (by decide) rfl hresp
    hlinks hresp' quickRide hskips
  rw [hshown, List.mem_singleton] at hmem
  have hstart := congrArg Itinerary.start hmem
  exact absurd hstart (by decide)

end shortSearch
end JourneyPages
