import JourneyPages.Proofs.Document.Checks
import JourneyPages.Proofs.Trip.Order

/-!
Valid documents. The checks of a document are all passed exactly if it is valid, so a document is
either valid and described by what is made of it, or refused with the error of its first failing
check. That no leg starts before its neighbour ends is all that is asked of the order of legs; for
legs that do not end before they start, it orders any two of them.
-/
namespace JourneyPages

/-! What validity asks for -/

/-- The identifier of a field can be read, if there is one. -/
def Readable (field : Option String) : Prop := ∀ text ∈ field, ∃ i, ScopedId.read text = .ok i

structure PlaceDocument.Valid (d : PlaceDocument) : Prop where
  stop : Readable d.stop
  station : Readable d.station

structure LegDocument.Valid (d : LegDocument) : Prop where
  /-- A street leg may have any identifiers, or none. -/
  ids : d.mode = .transit → Readable d.route ∧ Readable d.trip ∧ d.route ≠ none ∧ d.trip ≠ none
  origin : d.origin.Valid
  destination : d.destination.Valid
  start_le_finish : d.start ≤ d.finish
  distance_isMeasure : isMeasure d.distance = true

structure ItineraryDocument.Valid (d : ItineraryDocument) : Prop where
  legs : ∀ l ∈ d.legs, l.Valid
  legs_ne_nil : d.legs ≠ []
  inOrder : d.legs.IsChain fun a b => a.finish ≤ b.start

structure RequestDocument.Valid (d : RequestDocument) : Prop where
  window : ∀ minutes ∈ d.windowMinutes, 0 ≤ minutes ∧ (Span.minutes? minutes).isSome
  cursor : ∀ token ∈ d.cursor, ∃ c, PageCursor.decode token = .ok c
  itineraries : ∀ it ∈ d.itineraries, it.Valid

/-! Checks that are passed -/

theorem idCheck_passed_iff {field : Option String} :
    (∀ e, ¬ idCheck field e) ↔ Readable field := readCheck_passed_iff

/-- An identifier that is written out can be read. -/
theorem readable_text (i : ScopedId) : Readable (some i.text) := by
  rintro _ ⟨⟩
  exact ⟨i, ScopedId.read_text i⟩

theorem PlaceDocument.allPass_checks_iff {d : PlaceDocument} : AllPass d.checks ↔ d.Valid := by
  rw [checks, allPass_cons, allPass_singleton, idCheck_passed_iff, idCheck_passed_iff]
  exact ⟨fun ⟨hstop, hstation⟩ => ⟨hstop, hstation⟩, fun h => ⟨h.stop, h.station⟩⟩

namespace LegDocument
variable {d : LegDocument}

theorem allPass_travelChecks_iff : AllPass d.travelChecks ↔ (d.mode = .transit →
    Readable d.route ∧ Readable d.trip ∧ d.route ≠ none ∧ d.trip ≠ none) := by
  unfold travelChecks
  cases d.mode with
  | street mode => simp [AllPass]
  | transit =>
    rw [allPass_cons, allPass_cons, allPass_singleton, idCheck_passed_iff, idCheck_passed_iff,
      Check.test_passed_iff]
    simp

theorem allPass_checks_iff : AllPass d.checks ↔ d.Valid := by
  rw [checks, allPass_append, allPass_append, allPass_append, allPass_cons, allPass_singleton,
    allPass_travelChecks_iff, PlaceDocument.allPass_checks_iff, PlaceDocument.allPass_checks_iff,
    Check.test_passed_iff, Check.test_passed_iff]
  constructor
  · rintro ⟨hids, horigin, hdestination, htimes, hdistance⟩
    exact ⟨hids, horigin, hdestination, htimes, hdistance⟩
  · rintro ⟨hids, horigin, hdestination, htimes, hdistance⟩
    exact ⟨hids, horigin, hdestination, htimes, hdistance⟩

end LegDocument

namespace ItineraryDocument
variable {d : ItineraryDocument}

/-- The numbers that the checks give to the legs do not matter for passing them. -/
theorem allPass_neighbours_iff {ds : List LegDocument} (i : Nat) :
    AllPass (((ds.zip ds.tail).zipIdx i).map neighbourCheck) ↔
      ds.IsChain fun a b => a.finish ≤ b.start := by
  induction ds generalizing i with
  | nil => simp [AllPass]
  | cons d ds ih =>
    cases ds with
    | nil => simp [AllPass]
    | cons d' ds =>
      have hrest := ih (i + 1)
      simp only [List.tail_cons, List.zip_cons_cons, List.zipIdx_cons, List.map_cons] at hrest ⊢
      rw [allPass_cons, hrest, List.isChain_cons_cons]
      exact and_congr_left' Check.test_passed_iff

theorem allPass_checks_iff : AllPass d.checks ↔ d.Valid := by
  rw [checks, allPass_append, allPass_flatMap, allPass_cons, Check.test_passed_iff,
    allPass_neighbours_iff]
  simp only [LegDocument.allPass_checks_iff]
  exact ⟨fun ⟨hlegs, hne, horder⟩ => ⟨hlegs, hne, horder⟩,
    fun ⟨hlegs, hne, horder⟩ => ⟨hlegs, hne, horder⟩⟩

end ItineraryDocument

namespace RequestDocument
variable {d : RequestDocument}

theorem windowCheck_passed_iff : (∀ e, ¬ d.windowCheck e) ↔
    ∀ minutes ∈ d.windowMinutes, 0 ≤ minutes ∧ (Span.minutes? minutes).isSome :=
  Check.test_passed_iff

theorem cursorCheck_passed_iff : (∀ e, ¬ d.cursorCheck e) ↔
    ∀ token ∈ d.cursor, ∃ c, PageCursor.decode token = .ok c := readCheck_passed_iff

theorem allPass_checks_iff : AllPass d.checks ↔ d.Valid := by
  rw [checks, List.cons_append, List.singleton_append, allPass_cons, allPass_cons, allPass_flatMap,
    windowCheck_passed_iff, cursorCheck_passed_iff]
  simp only [ItineraryDocument.allPass_checks_iff]
  exact ⟨fun ⟨hwindow, hcursor, hits⟩ => ⟨hwindow, hcursor, hits⟩,
    fun ⟨hwindow, hcursor, hits⟩ => ⟨hwindow, hcursor, hits⟩⟩

/-- A request is made of a document exactly if the document is valid. It has the parameters of the
document and its itineraries, leg by leg; else the first failing check gives the error. -/
theorem parts_by_checks (d : RequestDocument) :
    ((∃ r its, d.parts = .ok (r, its)) ↔ d.Valid) ∧
    (∀ r its, d.parts = .ok (r, its) →
      d.DescribesRequest r ∧ List.Forall₂ ItineraryDocument.Describes d.itineraries its) ∧
    ∀ e, d.parts = .error e ↔ FirstFailure e d.checks := by
  refine ⟨?_, fun r its h => ?_, d.follows_parts⟩
  · rw [← allPass_checks_iff, ← d.follows_parts.exists_ok_iff, Prod.exists]
  · obtain ⟨r', hr, h⟩ := ok_of_bind h
    obtain ⟨its', hits, h⟩ := ok_of_bind h
    cases h
    exact ⟨describesRequest_of_request hr,
      (forall₂_of_mapM hits).imp fun _ _ => ItineraryDocument.describes_of_itinerary⟩

/-- A stop with a readable identifier. -/
def platform : PlaceDocument := ⟨"platform", some "F:1", none⟩

/-- A walk of so many meters. It has an identifier that nobody reads. -/
def approach (distance : Float) : LegDocument :=
  ⟨.street .walk, false, none, some "7", platform, platform, .ofMinutes 480, .ofMinutes 490,
    distance, .zero⟩

def ride (route : String) : LegDocument :=
  ⟨.transit, false, some route, some "F:7", platform, platform, .ofMinutes 490, .ofMinutes 520,
    9000.0, .zero⟩

/-- A walk and a ride behind it, as they are found in a window of one hour. -/
def commute (distance : Float) (route : String) : RequestDocument :=
  ⟨false, 50, none, none, some 60, none, [⟨.zero, [approach distance, ride route]⟩]⟩

/-- Where the walk and the ride are both wrong, the error is that of the walk. -/
theorem parts_by_checks_commute :
    (∃ r its, (commute 120.0 "F:7:R").parts = .ok (r, its) ∧ r.window = Span.minutes? 60 ∧
      its.length = 1) ∧
    (commute (-1.0) "R").parts = .error (.trip .legDistance) := by
  have hplatform : platform.Valid :=
    ⟨readable_text ⟨"F", "1", by decide, by decide, by decide⟩, nofun⟩
  have hwindow : ∀ minutes ∈ some (60 : Int), 0 ≤ minutes ∧ (Span.minutes? minutes).isSome := by
    rintro _ ⟨⟩
    exact ⟨by decide, rfl⟩
  constructor
  · obtain ⟨hvalid, hdescribes, -⟩ := parts_by_checks (commute 120.0 "F:7:R")
    have hlegs : ∀ l ∈ [approach 120.0, ride "F:7:R"], l.Valid := by
      rw [List.forall_mem_cons, List.forall_mem_singleton]
      refine ⟨⟨nofun, hplatform, hplatform, by decide, by decide +kernel⟩,
        ⟨fun _ => ⟨?_, ?_, nofun, nofun⟩, hplatform, hplatform, by decide, by decide +kernel⟩⟩
      · exact readable_text ⟨"F", "7:R", by decide, by decide, by decide⟩
      · exact readable_text ⟨"F", "7", by decide, by decide, by decide⟩
    obtain ⟨r, its, h⟩ := hvalid.mpr ⟨hwindow, nofun,
      List.forall_mem_singleton.mpr ⟨hlegs, nofun, by simp; decide⟩⟩
    obtain ⟨hr, hits⟩ := hdescribes r its h
    exact ⟨r, its, h, (hr.first rfl).2.2.2, hits.length_eq.symm⟩
  · rw [(parts_by_checks _).2.2]
    have hpassed := PlaceDocument.allPass_checks_iff.mpr hplatform
    have hwalk : FirstFailure (.trip .legDistance) (approach (-1.0)).checks := by
      refine firstFailure_append.mpr (.inr ⟨nofun, ?_⟩)
      refine firstFailure_append.mpr (.inr ⟨hpassed, ?_⟩)
      refine firstFailure_append.mpr (.inr ⟨hpassed, ?_⟩)
      exact .later (Check.test_passed_iff.mpr (by decide)) (.here ⟨by decide +kernel, rfl⟩)
    have hcommute : FirstFailure (.trip .legDistance)
        (⟨.zero, [approach (-1.0), ride "R"]⟩ : ItineraryDocument).checks :=
      firstFailure_append.mpr (.inl (firstFailure_append.mpr (.inl hwalk)))
    refine firstFailure_append.mpr (.inr ⟨?_, firstFailure_append.mpr (.inl hcommute)⟩)
    rw [allPass_cons, allPass_singleton]
    exact ⟨windowCheck_passed_iff.mpr hwindow, cursorCheck_passed_iff.mpr nofun⟩

end RequestDocument
end JourneyPages
