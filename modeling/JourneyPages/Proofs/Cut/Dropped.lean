import JourneyPages.Proofs.Walk

/-!
Whether a later page can still find what the cap of a page took off. The cap takes from one end of
the list, and the search goes on from the cut in time. With late departures first both mean the
same; with early arrivals first the list says nothing about departures, and what arrives late but
departs before the cut is out of reach.
-/
namespace JourneyPages

/-- Whether a search from the cursor, or from a later one on the same way, may find a departure at
this time. -/
def PageCursor.reaches (c : PageCursor) (t : Instant) : Prop :=
  match c.direction with
  | .next => c.opens ≤ t
  | .previous => t.ticks < c.opens.shift c.window.nanos

/-- Whether a departure at this time is ahead of the cut, or behind it by less than a minute on the
way back. -/
def SortKey.isBefore (cut : SortKey) (d : PageDirection) (t : Instant) : Prop :=
  match d with
  | .next => cut.start ≤ t
  | .previous => t.ticks < cut.start.shift 60000000000

namespace SearchRequest
variable {r : SearchRequest} {p : Preferences} {its : List Itinerary} {resp : Response}

/-- The cap rejects `it` in the run for the request. -/
def Drops (r : SearchRequest) (p : FilterPreferences) (its : List Itinerary) (it : Itinerary) :
    Prop :=
  Stage.RejectsIn ((r.plan p []).chain.stages.map (·.2)) its (.cap r.count r.croppedEnd r.order) it

theorem drops_iff {p : FilterPreferences} {it : Itinerary} :
    r.Drops p its it ↔ it ∈ (Cap.crop r.count r.croppedEnd (r.offered p its)).1 := by
  have h : (r.plan p []).decorators = [] := by rw [plan_eq]
  have hiff := Plan.rejectsIn_cap_iff h its it
  rw [Drops, offered]
  rw [plan_eq] at hiff ⊢
  exact hiff

/-- The cursor in the direction of a page reaches what is before the cut of the page. -/
theorem reaches_iff {policy : WindowPolicy} {report : CapReport} {opens : Instant} {used : Span}
    {l : PageLinks} (hl : r.page.Linked policy (some report) opens used l) (t : Instant) :
    (l.toward r.page.direction).reaches t ↔ report.cut.isBefore r.page.direction t := by
  rw [PageCursor.reaches, hl.direction]
  cases hd : r.page.direction with
  | next => simp only [PageLinks.toward, SortKey.isBefore, hl.opens_of_cut hd rfl]
  | previous => simp only [PageLinks.toward, SortKey.isBefore, hl.closes_of_cut hd rfl]

/-- With late departures first, all that the cap takes off is before the cut. -/
theorem isBefore_of_drops {p : FilterPreferences} {report : CapReport} {it : Itinerary}
    (transit : ∀ it ∈ r.offered p its, it.hasTransit) (ho : r.order = .streetAndDeparture)
    (hreport : Cap.reportOf r.count r.croppedEnd (r.offered p its) = some report)
    (hit : r.Drops p its it) : report.cut.isBefore r.page.direction it.start := by
  have hmem := drops_iff.mp hit
  have hle := Cap.isLE_of_mem_dropped (r.offered_pairwise p its) hreport hmem
  obtain ⟨last, hlast, hcut⟩ := Cap.boundary_of_reportOf hreport
  have hlast := Cap.mem_of_mem_crop_snd _ (Cap.mem_of_boundary? hlast)
  have hit := Itinerary.streetOnly_key (transit it (Cap.mem_of_mem_crop_fst _ hmem))
  have hcut : report.cut.streetOnly = false :=
    hcut ▸ Itinerary.streetOnly_key (transit last hlast)
  rw [croppedEnd_eq, ho] at hle
  cases hd : r.page.direction with
  | next =>
    rw [hd] at hle
    exact SortOrder.start_le_of_isLE_compare hit hcut hle
  | previous =>
    rw [hd] at hle
    have hstart : it.start ≤ report.cut.start :=
      SortOrder.start_le_of_isLE_compare hcut hit hle
    exact lt_of_le_of_lt (Instant.le_iff.mp hstart) (Instant.lt_shift_iff.mpr (by decide))

/-- All that the cap of a page takes off is in reach of the cursor in the direction of the page
exactly if it is before the cut in time. With late departures first it always is. -/
theorem reaches_dropped_iff {used : Span} {report : CapReport}
    (transit : ∀ it ∈ its, it.hasTransit) (hw : r.window = some used)
    (h : r.respond its p [] = .ok resp) (hcap : resp.cap = some report) :
    ∃ links, resp.links = some links ∧
      ((∀ it, r.Drops p.filter its it → (links.toward r.page.direction).reaches it.start) ↔
        r.order = .streetAndDeparture ∨
        ∀ it, r.Drops p.filter its it → report.cut.isBefore r.page.direction it.start) := by
  obtain ⟨policy, hanswers⟩ := answers_of_respond h
  obtain ⟨links, hlinks⟩ := hanswers.exists_links hw
  obtain ⟨opens, _, ho, hw', hlinked⟩ := hanswers.linked hlinks
  rw [hcap] at hlinked
  refine ⟨links, hlinks, ?_⟩
  constructor
  · intro hall
    apply Or.inr
    intro it hit
    exact (reaches_iff hlinked it.start).mp (hall it hit)
  · rintro (horder | hall) it hit
    · have hreport := hanswers.cap.symm.trans hcap
      have hoffered : ∀ it ∈ r.offered p.filter its, it.hasTransit := fun it hmem =>
        (of_mem_offered ho hw' hanswers.valid transit hmem).2.1
      exact (reaches_iff hlinked it.start).mpr (isBefore_of_drops hoffered horder hreport hit)
    · exact (reaches_iff hlinked it.start).mpr (hall it hit)

end SearchRequest

/-! A page of one ride: the fast one, which arrives before the slow one but departs later -/

section oneRide
open SearchRequest

def oneRide : SearchRequest := .first false 1 480 120

theorem offered_oneRide :
    oneRide.offered Preferences.bare.filter [slowRide, fastRide] = [fastRide, slowRide] := by
  rw [offered_bare]
  rfl

theorem respond_oneRide : ∃ resp report links,
    oneRide.respond [slowRide, fastRide] .bare [] = .ok resp ∧ resp.cap = some report ∧
    resp.links = some links ∧ links.next.direction = .next ∧
    links.next.opens = .ofMinutes 540 := by
  rw [respond_eq_paged oneRide rfl, offered_oneRide]
  exact ⟨_, _, _, rfl, rfl, rfl, rfl, rfl⟩

theorem drops_slowRide : oneRide.Drops Preferences.bare.filter [slowRide, fastRide] slowRide := by
  rw [drops_iff, offered_oneRide]
  exact List.mem_singleton_self slowRide

theorem reaches_dropped_iff_oneRide : ∃ resp report links,
    oneRide.respond [slowRide, fastRide] .bare [] = .ok resp ∧ resp.cap = some report ∧
    resp.links = some links ∧
    ((∀ it, oneRide.Drops Preferences.bare.filter [slowRide, fastRide] it →
        (links.toward oneRide.page.direction).reaches it.start) ↔
      oneRide.order = .streetAndDeparture ∨
      ∀ it, oneRide.Drops Preferences.bare.filter [slowRide, fastRide] it →
        report.cut.isBefore oneRide.page.direction it.start) := by
  obtain ⟨resp, report, -, hresp, hcap, -⟩ := respond_oneRide
  obtain ⟨links, hlinks, hiff⟩ := reaches_dropped_iff (by decide) rfl hresp hcap
  exact ⟨resp, report, links, hresp, hcap, hlinks, hiff⟩

/-- The next page starts with the departure of the fast ride and never finds the slow one. -/
theorem exists_dropped_out_of_reach : ¬ ∀ (r : SearchRequest) (its : List Itinerary)
    (p : Preferences) (resp : Response) (links : PageLinks),
    (∀ it ∈ its, it.hasTransit) → r.window.isSome → r.respond its p [] = .ok resp →
    resp.cap.isSome → resp.links = some links →
    ∀ it, r.Drops p.filter its it → (links.toward r.page.direction).reaches it.start := by
  intro hall
  obtain ⟨resp, report, links, hresp, hcap, hlinks, hnext, hopens⟩ := respond_oneRide
  have hreach : links.next.reaches slowRide.start :=
    hall oneRide [slowRide, fastRide] .bare resp links (by decide) rfl hresp (by rw [hcap]; rfl)
      hlinks slowRide drops_slowRide
  simp only [PageCursor.reaches, hnext, hopens] at hreach
  exact absurd hreach (by decide)

end oneRide
end JourneyPages
