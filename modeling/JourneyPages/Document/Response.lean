import JourneyPages.Response

/-!
Response documents. How a distance is written is left to the caller.
-/
namespace JourneyPages

def Travel.text : Travel → String
  | .transit .. => "TRANSIT"
  | .street mode rented => (if rented then "RENTAL_" else "") ++ match mode with
    | .walk => "WALK"
    | .bicycle => "BICYCLE"
    | .car => "CAR"

def ScopedId.toJson (i : ScopedId) : Json := .text i.text

def Leg.toJson (distance : Float → Json) (l : Leg) : Json :=
  .record [("mode", .text l.travel.text), ("from", .text l.origin.name),
    ("to", .text l.destination.name), ("start_time", l.start.toJson),
    ("end_time", l.finish.toJson), ("distance_meters", distance l.distance),
    ("trip_id", .orNull ScopedId.toJson l.trip?)]

def Notice.toJson (n : Notice) : Json := .record [("tag", .text n.tag), ("text", .text n.text)]

/-- Notices and decorations are left out if there are none. -/
def Itinerary.toJson (distance : Float → Json) (it : Itinerary) : Json :=
  .record ([("start_time", it.start.toJson), ("end_time", it.finish.toJson),
    ("duration_mins", .int it.duration.wholeMinutes), ("generalized_cost", it.cost.toJson),
    ("number_of_transfers", .int it.transfers),
    ("legs", .array (it.legs.map (Leg.toJson distance)))] ++
    (if it.notices.isEmpty then []
      else [("system_notices", .array (it.notices.map Notice.toJson))]) ++
    (if it.decorations.isEmpty then [] else [("decorations", .record it.decorations)]))

def SearchMetadata.toJson (m : SearchMetadata) : Json :=
  .record [("search_window_used", .int m.window.wholeMinutes),
    ("prev_date_time", m.previous.toJson), ("next_date_time", m.next.toJson)]

def PageCursor.tokenJson (c : PageCursor) : Json := .text c.encode

/-- The members of a response document. -/
def Response.members (distance : Float → Json) (r : Response) : List (String × Json) :=
  [("itineraries", .array (r.itineraries.map (Itinerary.toJson distance))),
    ("metadata", .orNull SearchMetadata.toJson (r.links.map PageLinks.metadata)),
    ("next_page_cursor", .orNull PageCursor.tokenJson (r.links.map PageLinks.next)),
    ("previous_page_cursor", .orNull PageCursor.tokenJson (r.links.map PageLinks.previous))]

def Response.toJson (distance : Float → Json) (r : Response) : Json :=
  .record (r.members distance)

end JourneyPages
