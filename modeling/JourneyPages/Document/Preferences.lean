import JourneyPages.Response

/-!
Preference documents. Every field has a value of its own when it is left out, but for the line of
a transit cost limit.
-/
namespace JourneyPages

/-- A cost line, by its text. -/
def CostLine.ofJson? (v : Json) : Option CostLine :=
  v.string?.bind fun s => (CostLine.read s).toOption

def TransitLimit.ofJson? (v : Json) : Option TransitLimit := do
  let r ← v.record? false ["cost_limit_function", "interval_relax_factor"]
  some {
    line := ← r.required? "cost_limit_function" CostLine.ofJson?
    relax := ← r.defaulted? "interval_relax_factor" Json.float? 0.0 }

def SimilarityLimit.ofJson? (v : Json) : Option SimilarityLimit := do
  let r ← v.record? false ["group_by_p", "max_num_of_itineraries_per_group",
    "nested_grouping_by_all_same_stations", "max_cost_other_legs_factor"]
  some {
    share := ← r.defaulted? "group_by_p" Json.float? 0.85
    max := ← r.defaulted? "max_num_of_itineraries_per_group" Json.count? 1
    perStations := ← r.defaulted? "nested_grouping_by_all_same_stations" Json.bool? false
    otherLegsFactor := ← r.defaulted? "max_cost_other_legs_factor" Json.float? 0.0 }

def DebugProfile.names : List (String × DebugProfile) :=
  [("off", .off), ("list_all", .listAll), ("limit_to_search_window", .limitToWindow),
    ("limit_to_num_of_itineraries", .limitToCount)]

def FilterPreferences.ofJson? (v : Json) : Option FilterPreferences := do
  let r ← v.record? false ["group_by_similarity",
    "remove_itineraries_with_same_routes_and_stops",
    "remove_itineraries_with_same_first_or_last_trip", "min_bike_parking_distance_meters",
    "accessibility_score", "transit_generalized_cost_limit",
    "non_transit_generalized_cost_limit",
    "remove_transit_with_higher_cost_than_best_on_street_only",
    "remove_transit_if_walking_is_better", "remove_walk_all_the_way_results",
    "bike_rental_distance_ratio", "park_and_ride_duration_ratio", "debug"]
  let d := FilterPreferences.standard
  some {
    similarity := ← r.defaulted? "group_by_similarity" (Json.list? SimilarityLimit.ofJson?)
      d.similarity
    sameRoutesAndStops := ← r.defaulted? "remove_itineraries_with_same_routes_and_stops"
      Json.bool? d.sameRoutesAndStops
    sameEndTrip := ← r.defaulted? "remove_itineraries_with_same_first_or_last_trip"
      Json.bool? d.sameEndTrip
    leastBicycleDistance := ← r.defaulted? "min_bike_parking_distance_meters" Json.float?
      d.leastBicycleDistance
    accessibilityScore := ← r.defaulted? "accessibility_score" Json.bool? d.accessibilityScore
    transitCost := ← r.defaulted? "transit_generalized_cost_limit"
      (Json.nullable? TransitLimit.ofJson?) d.transitCost
    streetCost := ← r.defaulted? "non_transit_generalized_cost_limit"
      (Json.nullable? CostLine.ofJson?) d.streetCost
    dearerThanStreet := ← r.defaulted? "remove_transit_with_higher_cost_than_best_on_street_only"
      (Json.nullable? CostLine.ofJson?) d.dearerThanStreet
    dearerThanWalk := ← r.defaulted? "remove_transit_if_walking_is_better" Json.bool?
      d.dearerThanWalk
    walkOnly := ← r.defaulted? "remove_walk_all_the_way_results" Json.bool? d.walkOnly
    rentedBicycleRatio := ← r.defaulted? "bike_rental_distance_ratio" Json.float?
      d.rentedBicycleRatio
    drivingRatio := ← r.defaulted? "park_and_ride_duration_ratio" Json.float? d.drivingRatio
    debug := ← r.defaulted? "debug" (Json.named? DebugProfile.names) d.debug }

def PagingPreferences.ofJson? (v : Json) : Option PagingPreferences := do
  let r ← v.record? false ["min_search_window_mins", "max_search_window_mins",
    "search_window_adjustments_mins"]
  let d := PagingPreferences.standard
  some {
    minMinutes := ← r.defaulted? "min_search_window_mins" Json.int64? d.minMinutes
    maxMinutes := ← r.defaulted? "max_search_window_mins" Json.int64? d.maxMinutes
    stepMinutes := ← r.defaulted? "search_window_adjustments_mins" (Json.list? Json.int64?)
      d.stepMinutes }

namespace Preferences

def ofJson? (v : Json) : Option Preferences := do
  let r ← v.record? false ["itinerary_filter", "paging"]
  some {
    filter := ← r.defaulted? "itinerary_filter" FilterPreferences.ofJson? .standard
    paging := ← r.defaulted? "paging" PagingPreferences.ofJson? .standard }

/-- The preferences that the text of a document states. -/
def read? (text : String) : Option Preferences := (Json.read? text.toList).bind ofJson?

end Preferences
end JourneyPages
