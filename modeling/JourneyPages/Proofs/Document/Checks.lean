import JourneyPages.Document.Request
import JourneyPages.Proofs.Checks
import JourneyPages.Proofs.Trip.ScopedId

/-!
The checks of a request document, part by part and in the order in which they are made, and what a
document describes if they are passed. Main statement: what is made of a document follows its
checks.
-/
namespace JourneyPages

/-! What documents describe -/

structure PlaceDocument.Describes (d : PlaceDocument) (p : Place) : Prop where
  name : p.name = d.name
  stop : d.stop = p.stop.map ScopedId.text
  station : d.station = p.station.map ScopedId.text

/-- How a leg is travelled. -/
def LegDocument.DescribesTravel (d : LegDocument) (travel : Travel) : Prop :=
  match d.mode with
  | .street mode => travel = .street mode d.rented
  | .transit => ∃ route trip : ScopedId, travel = .transit route trip ∧
      d.route = some route.text ∧ d.trip = some trip.text

structure LegDocument.Describes (d : LegDocument) (l : Leg) : Prop where
  travel : d.DescribesTravel l.travel
  origin : d.origin.Describes l.origin
  destination : d.destination.Describes l.destination
  start : l.start = d.start
  finish : l.finish = d.finish
  distance : l.distance = d.distance
  cost : l.cost = d.cost

/-- An itinerary fresh from the search, with the legs of the document in its order. -/
structure ItineraryDocument.Describes (d : ItineraryDocument) (it : Itinerary) : Prop where
  legs : List.Forall₂ LegDocument.Describes d.legs it.legs
  inOrder : it.legs.Pairwise fun a b => a.finish ≤ b.start
  cost : it.cost = d.cost
  tags : it.tags = []
  notices : it.notices = []
  decorations : it.decorations = []

/-- The parameters of the search. Those of a cursor take the place of the document's. -/
structure RequestDocument.DescribesRequest (d : RequestDocument) (r : SearchRequest) : Prop where
  arriveBy : r.arriveBy = d.arriveBy
  count : r.count = d.count
  cursor : ∀ token ∈ d.cursor, ∃ c, PageCursor.decode token = .ok c ∧ r.cursor = some c ∧
    r.opens = some c.opens ∧ r.latestArrival = c.latestArrival ∧ r.window = some c.window
  first : d.cursor = none → r.cursor = none ∧ r.opens = d.opens ∧
    r.latestArrival = d.latestArrival ∧ r.window = d.windowMinutes.bind Span.minutes?

/-! Fields that are read -/

/-- The text of a field, if there is one, can be read. -/
def readCheck {ε α : Type} (read : String → Except ε α) (wrap : ε → ResponseError)
    (field : Option String) : Check ResponseError := fun e =>
  ∃ text ∈ field, ∃ why, read text = .error why ∧ e = wrap why

section readCheck
variable {ε α β : Type} {read : String → Except ε α} {wrap : ε → ResponseError}

theorem follows_readCheck_none (b : β) :
    Follows [readCheck read wrap none] (pure b : Except ResponseError β) :=
  .of_iff fun _ => iff_of_false (by rintro ⟨⟩) (by simp [readCheck])

theorem follows_readCheck_some (text : String) :
    Follows [readCheck read wrap (some text)] ((read text).mapError wrap) := by
  refine .of_iff fun e => ?_
  cases hread : read text <;> simp [readCheck, hread, Except.mapError, eq_comm]

theorem readCheck_passed_iff {field : Option String} :
    (∀ e, ¬ readCheck read wrap field e) ↔ ∀ text ∈ field, ∃ a, read text = .ok a := by
  constructor
  · intro h text htext
    cases hread : read text with
    | error why => exact absurd ⟨text, htext, why, hread, rfl⟩ (h (wrap why))
    | ok a => exact ⟨a, rfl⟩
  · rintro h _ ⟨text, htext, why, hread, -⟩
    obtain ⟨a, ha⟩ := h text htext
    rw [hread] at ha
    cases ha

end readCheck

/-! Identifiers and places -/

/-- The identifier of a field, if there is one, can be read. -/
def idCheck (field : Option String) : Check ResponseError := readCheck ScopedId.read .id field

theorem readId?_some (text : String) :
    readId? (some text) = (ScopedId.read text).mapError ResponseError.id >>= (pure ∘ some) := by
  rw [readId?]
  cases ScopedId.read text <;> rfl

theorem follows_readId? (field : Option String) : Follows [idCheck field] (readId? field) := by
  cases field with
  | none => exact follows_readCheck_none none
  | some text =>
    rw [readId?_some]
    exact (follows_readCheck_some text).bind_pure some

theorem readId?_eq_ok_iff {field : Option String} {i : Option ScopedId} :
    readId? field = .ok i ↔ field = i.map ScopedId.text := by
  cases field with
  | none => cases i <;> simp [readId?]
  | some text =>
    rw [readId?]
    cases hread : ScopedId.read text with
    | error why =>
      refine iff_of_false (by rintro ⟨⟩) fun h => ?_
      obtain ⟨j, rfl, hj⟩ := Option.map_eq_some_iff.mp h.symm
      rw [ScopedId.read_eq_ok_iff.mpr hj] at hread
      cases hread
    | ok j =>
      have htext := ScopedId.text_of_read hread
      cases i with
      | none => simp [Except.map, Except.mapError]
      | some k =>
        simp only [Except.map, Except.mapError, Except.ok.injEq, Option.some.injEq, Option.map_some]
        rw [← htext, eq_comm (a := j.text), ← ScopedId.read_eq_ok_iff, ScopedId.read_text,
          Except.ok.injEq]

namespace PlaceDocument

def checks (d : PlaceDocument) : List (Check ResponseError) := [idCheck d.stop, idCheck d.station]

theorem follows_place (d : PlaceDocument) : Follows d.checks d.place := by
  change Follows ([idCheck d.stop] ++ [idCheck d.station]) d.place
  exact (follows_readId? d.stop).bind fun _ _ => (follows_readId? d.station).bind_pure _

theorem describes_of_place {d : PlaceDocument} {p : Place} (h : d.place = .ok p) :
    d.Describes p := by
  obtain ⟨stop, hstop, h⟩ := ok_of_bind h
  obtain ⟨station, hstation, h⟩ := ok_of_bind h
  cases h
  exact ⟨rfl, readId?_eq_ok_iff.mp hstop, readId?_eq_ok_iff.mp hstation⟩

end PlaceDocument

/-! Legs -/

namespace LegDocument

/-- The identifiers of a street leg are not looked at. -/
def travelChecks (d : LegDocument) : List (Check ResponseError) :=
  match d.mode with
  | .street _ => []
  | .transit => [idCheck d.route, idCheck d.trip,
      .test (d.route ≠ none ∧ d.trip ≠ none) (.trip .legWithoutTrip)]

def checks (d : LegDocument) : List (Check ResponseError) :=
  d.travelChecks ++ (d.origin.checks ++ (d.destination.checks ++
    [.test (d.start ≤ d.finish) (.trip .legEndsBeforeStart),
      .test (isMeasure d.distance = true) (.trip .legDistance)]))

theorem follows_travel (d : LegDocument) : Follows d.travelChecks d.travel := by
  unfold travelChecks travel
  cases d.mode with
  | street mode => exact .pure _
  | transit =>
    change Follows ([idCheck d.route] ++ ([idCheck d.trip] ++ [_])) _
    refine (follows_readId? d.route).bind fun route hroute =>
      (follows_readId? d.trip).bind fun trip htrip => .of_iff fun e => ?_
    rw [readId?_eq_ok_iff] at hroute htrip
    rw [hroute, htrip]
    cases route <;> cases trip <;> simp [eq_comm, throw, throwThe, MonadExceptOf.throw, Pure.pure,
      Except.pure]

theorem describesTravel_of_travel {d : LegDocument} {travel : Travel}
    (h : d.travel = .ok travel) : d.DescribesTravel travel := by
  unfold LegDocument.travel at h
  unfold DescribesTravel
  cases hmode : d.mode with
  | street mode =>
    rw [hmode] at h
    cases h
    rfl
  | transit =>
    rw [hmode] at h
    obtain ⟨route, hroute, h⟩ := ok_of_bind h
    obtain ⟨trip, htrip, h⟩ := ok_of_bind h
    rw [readId?_eq_ok_iff] at hroute htrip
    cases route <;> cases trip <;> cases h
    exact ⟨_, _, rfl, hroute, htrip⟩

theorem follows_make (travel : Travel) (origin destination : Place) (start finish : Instant)
    (distance : Float) (cost : Cost) :
    Follows [.test (start ≤ finish) (ResponseError.trip .legEndsBeforeStart),
        .test (isMeasure distance = true) (.trip .legDistance)]
      ((Leg.make travel origin destination start finish distance cost).mapError .trip) := by
  unfold Leg.make
  rw [apply_dite (Except.mapError ResponseError.trip)]
  refine .dite fun ht => ?_
  rw [apply_dite (Except.mapError ResponseError.trip)]
  exact .dite fun hd => .pure _

theorem follows_leg (d : LegDocument) : Follows d.checks d.leg :=
  d.follows_travel.bind fun _ _ => d.origin.follows_place.bind fun _ _ =>
    d.destination.follows_place.bind fun _ _ => follows_make _ _ _ _ _ _ _

theorem describes_of_leg {d : LegDocument} {l : Leg} (h : d.leg = .ok l) : d.Describes l := by
  obtain ⟨travel, htravel, h⟩ := ok_of_bind h
  obtain ⟨origin, horigin, h⟩ := ok_of_bind h
  obtain ⟨destination, hdestination, h⟩ := ok_of_bind h
  replace h := ok_of_mapError h
  unfold Leg.make at h
  split_ifs at h
  cases h
  exact ⟨describesTravel_of_travel htravel, PlaceDocument.describes_of_place horigin,
    PlaceDocument.describes_of_place hdestination, rfl, rfl, rfl, rfl⟩

end LegDocument

/-! Itineraries -/

/-- The second of two neighbours does not start before the first one ends. -/
def neighbourCheck : (LegDocument × LegDocument) × Nat → Check ResponseError := fun (p, i) =>
  .test (p.1.finish ≤ p.2.start) (.trip (.legTooEarly (i + 1)))

namespace ItineraryDocument

/-- The legs come first, one by one, and then how they go together. -/
def checks (d : ItineraryDocument) : List (Check ResponseError) :=
  d.legs.flatMap LegDocument.checks ++ .test (d.legs ≠ []) (.trip .noLegs) ::
    (d.legs.zip d.legs.tail).zipIdx.map neighbourCheck

theorem firstFailure_neighbours {ds : List LegDocument} {legs : List Leg}
    (h : List.Forall₂ LegDocument.Describes ds legs) (i : Nat) (e : ResponseError) :
    FirstFailure e (((ds.zip ds.tail).zipIdx i).map neighbourCheck) ↔
      ∃ k, firstTooEarly? i legs = some k ∧ e = .trip (.legTooEarly k) := by
  induction h generalizing i with
  | nil => simp [firstTooEarly?, not_firstFailure_nil]
  | @cons d l ds legs hd hrest ih =>
    cases hrest with
    | nil => simp [firstTooEarly?, not_firstFailure_nil]
    | @cons d' l' ds legs hd' hrest =>
      -- The neighbours behind the first two are those of the rest, with numbers one higher.
      have hnext := ih (i + 1)
      simp only [List.tail_cons, List.zip_cons_cons, List.zipIdx_cons, List.map_cons] at hnext ⊢
      rw [firstFailure_cons, hnext, firstTooEarly?, hd.finish, hd'.start]
      split
      case isTrue hle => simp [neighbourCheck, hle]
      case isFalse hle => simp [neighbourCheck, hle]

theorem follows_make {ds : List LegDocument} {legs : List Leg}
    (h : List.Forall₂ LegDocument.Describes ds legs) (cost : Cost) :
    Follows (.test (ds ≠ []) (.trip .noLegs) :: (ds.zip ds.tail).zipIdx.map neighbourCheck)
      ((Itinerary.make legs cost).mapError ResponseError.trip) := by
  intro e
  rw [firstFailure_cons, firstFailure_neighbours h]
  have hnil : ds = [] ↔ legs = [] := by
    cases h <;> simp
  unfold Itinerary.make
  split
  case isTrue hn => simp [hnil.mpr hn, Except.mapError, eq_comm]
  case isFalse hn =>
    have hne : ds ≠ [] := fun hds => hn (hnil.mp hds)
    split <;> rename_i hfirst <;> simp [hne, hfirst, Except.mapError, eq_comm]

theorem follows_itinerary (d : ItineraryDocument) : Follows d.checks d.itinerary :=
  (Follows.mapM LegDocument.follows_leg d.legs).bind fun _ hlegs =>
    follows_make ((forall₂_of_mapM hlegs).imp fun _ _ => LegDocument.describes_of_leg) d.cost

theorem describes_of_itinerary {d : ItineraryDocument} {it : Itinerary}
    (h : d.itinerary = .ok it) : d.Describes it := by
  obtain ⟨legs, hlegs, h⟩ := ok_of_bind h
  replace h := ok_of_mapError h
  unfold Itinerary.make at h
  split at h
  case isTrue => cases h
  case isFalse =>
    split at h
    · cases h
    · cases h
      refine ⟨?_, Itinerary.legs_inOrder _, rfl, rfl, rfl, rfl⟩
      exact (forall₂_of_mapM hlegs).imp fun _ _ => LegDocument.describes_of_leg

end ItineraryDocument

/-! Requests -/

namespace RequestDocument

def windowCheck (d : RequestDocument) : Check ResponseError :=
  .test (∀ minutes ∈ d.windowMinutes, 0 ≤ minutes ∧ (Span.minutes? minutes).isSome)
    (.paging .windowOutOfRange)

def cursorCheck (d : RequestDocument) : Check ResponseError :=
  readCheck PageCursor.decode .cursor d.cursor

def checks (d : RequestDocument) : List (Check ResponseError) :=
  [d.windowCheck, d.cursorCheck] ++ d.itineraries.flatMap ItineraryDocument.checks

theorem window_eq (d : RequestDocument) : d.window = match d.windowMinutes with
    | none => .ok none
    | some minutes =>
      if 0 ≤ minutes ∧ (Span.minutes? minutes).isSome then .ok (Span.minutes? minutes)
      else .error (.paging .windowOutOfRange) := by
  unfold window
  cases d.windowMinutes with
  | none => rfl
  | some minutes =>
    by_cases hpos : 0 ≤ minutes
    · cases hwindow : Span.minutes? minutes <;> simp [hpos, hwindow]
    · simp [hpos]

theorem follows_window (d : RequestDocument) : Follows [d.windowCheck] d.window := by
  refine .of_iff fun e => ?_
  rw [window_eq, windowCheck]
  cases d.windowMinutes with
  | none => simp
  | some minutes =>
    simp only [Option.mem_def, Option.some.injEq, forall_eq']
    split
    case isTrue h => exact iff_of_false (by rintro ⟨⟩) fun hfails => hfails.1 h
    case isFalse h => exact ⟨fun he => ⟨h, (Except.error.inj he).symm⟩, fun ⟨_, he⟩ => he ▸ rfl⟩

theorem follows_request (d : RequestDocument) :
    Follows [d.windowCheck, d.cursorCheck] d.request := by
  change Follows ([d.windowCheck] ++ [d.cursorCheck]) d.request
  refine d.follows_window.bind fun window _ => ?_
  rw [cursorCheck]
  cases d.cursor with
  | none => exact follows_readCheck_none _
  | some token => exact (follows_readCheck_some token).bind_pure _

theorem describesRequest_of_request {d : RequestDocument} {r : SearchRequest}
    (h : d.request = .ok r) : d.DescribesRequest r := by
  obtain ⟨window, hwindow, h⟩ := ok_of_bind h
  have heq : window = d.windowMinutes.bind Span.minutes? := by
    rw [window_eq] at hwindow
    cases hminutes : d.windowMinutes with
    | none =>
      rw [hminutes] at hwindow
      cases hwindow
      rfl
    | some minutes =>
      rw [hminutes] at hwindow
      dsimp only at hwindow
      split_ifs at hwindow
      cases hwindow
      rfl
  cases hcursor : d.cursor with
  | none =>
    rw [hcursor] at h
    cases h
    exact ⟨rfl, rfl, by simp [hcursor], fun _ => ⟨rfl, rfl, rfl, heq⟩⟩
  | some token =>
    rw [hcursor] at h
    obtain ⟨c, hc, h⟩ := ok_of_bind h
    cases h
    refine ⟨rfl, rfl, ?_, by simp [hcursor]⟩
    rw [hcursor]
    rintro _ ⟨⟩
    exact ⟨c, ok_of_mapError hc, rfl, rfl, rfl, rfl⟩

theorem follows_parts (d : RequestDocument) : Follows d.checks d.parts :=
  d.follows_request.bind fun _ _ =>
    (Follows.mapM ItineraryDocument.follows_itinerary d.itineraries).bind_pure _

end RequestDocument
end JourneyPages
