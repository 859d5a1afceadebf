import JourneyPages.Encoding.Base64Url
import JourneyPages.Json.Printer
import JourneyPages.Json.Reader
import JourneyPages.Json.Record
import JourneyPages.Paging.Cursor
import JourneyPages.Time.Rfc3339

/-!
The token that a page cursor travels in: URL-safe base64 of one line of JSON with a version number
in front. The window has whole seconds there.
-/
namespace JourneyPages

/-- Why a token is no page cursor. -/
inductive CursorError
  | notBase64
  | notACursor
  | unsupportedVersion (version : Int)
  | negativeWindow
  | windowOutOfRange
  deriving DecidableEq, Repr

def CursorError.message : CursorError → String
  | notBase64 => "page cursor is not valid base64"
  | notACursor => "page cursor is malformed"
  | unsupportedVersion version =>
    "unsupported page cursor version " ++ String.ofList (Text.integer version)
  | negativeWindow => "page cursor has a negative search window"
  | windowOutOfRange => "page cursor search window is too large"

/-! Names -/

def SortOrder.names : List (String × SortOrder) :=
  [("STREET_AND_ARRIVAL_TIME", .streetAndArrival),
    ("STREET_AND_DEPARTURE_TIME", .streetAndDeparture)]

def SortOrder.text : SortOrder → String
  | .streetAndArrival => "STREET_AND_ARRIVAL_TIME"
  | .streetAndDeparture => "STREET_AND_DEPARTURE_TIME"

def PageDirection.names : List (String × PageDirection) :=
  [("NEXT_PAGE", .next), ("PREVIOUS_PAGE", .previous)]

def PageDirection.text : PageDirection → String
  | .next => "NEXT_PAGE"
  | .previous => "PREVIOUS_PAGE"

/-! Pieces of documents -/

def Instant.toJson (t : Instant) : Json := .ofChars (Rfc3339.write t)

def Instant.ofJson? (v : Json) : Option Instant := v.string?.bind fun s => Rfc3339.read? s.toList

def Cost.toJson (c : Cost) : Json := .int c.value

def Cost.ofJson? (v : Json) : Option Cost :=
  (v.intIn? (-2147483648) 2147483647).map fun n => ⟨n.val, n.property⟩

namespace SortKey

def toJson (k : SortKey) : Json :=
  .record [("start", k.start.toJson), ("end", k.finish.toJson), ("cost", k.cost.toJson),
    ("transfers", .int k.transfers), ("street_only", .bool k.streetOnly)]

def ofJson? (v : Json) : Option SortKey := do
  let r ← v.record? true ["start", "end", "cost", "transfers", "street_only"]
  let start ← r.required? "start" Instant.ofJson?
  let finish ← r.required? "end" Instant.ofJson?
  let cost ← r.required? "cost" Cost.ofJson?
  let ⟨transfers, h⟩ ← r.required? "transfers" (Json.intIn? 0 18446744073709551615)
  let streetOnly ← r.required? "street_only" Json.bool?
  some ⟨start, finish, cost, transfers.toNat, streetOnly, by omega⟩

end SortKey

namespace PageCursor

/-! Writing -/

def version : Int := 1

def toJson (c : PageCursor) : Json :=
  .record ([("v", .int version), ("type", .text c.direction.text), ("sort", .text c.order.text),
    ("edt", c.opens.toJson)] ++
    c.latestArrival.toList.map (fun t => ("lat", t.toJson)) ++
    [("sw_secs", .int c.window.wholeSeconds)] ++
    c.cut.toList.map (fun k => ("cut", k.toJson)))

def encode (c : PageCursor) : String :=
  String.ofList (Base64Url.encode (String.ofList c.toJson.compact).toUTF8.data.toList)

/-! Reading -/

/-- The body of a token, before its version and window have been looked at. -/
structure Body where
  version : Int
  direction : PageDirection
  order : SortOrder
  opens : Instant
  latestArrival : Option Instant
  seconds : Int
  cut : Option SortKey

def Body.ofJson? (v : Json) : Option Body := do
  let r ← v.record? true ["v", "type", "sort", "edt", "lat", "sw_secs", "cut"]
  let version ← r.required? "v" (Json.intIn? 0 4294967295)
  let direction ← r.required? "type" (Json.named? PageDirection.names)
  let order ← r.required? "sort" (Json.named? SortOrder.names)
  let opens ← r.required? "edt" Instant.ofJson?
  let latestArrival ← r.defaulted? "lat" (Json.nullable? Instant.ofJson?) none
  let seconds ← r.required? "sw_secs" Json.int64?
  let cut ← r.defaulted? "cut" (Json.nullable? SortKey.ofJson?) none
  some ⟨version.val, direction, order, opens, latestArrival, seconds, cut⟩

/-- The cursor that a body stands for. Its version must be known, and its window must not be
negative or reach past the instants that there are. -/
def ofBody (b : Body) : Except CursorError PageCursor :=
  if b.version ≠ version then .error (.unsupportedVersion b.version)
  else if b.seconds < 0 then .error .negativeWindow
  else match Span.seconds? b.seconds with
    | none => .error .windowOutOfRange
    | some window =>
      if reachable b.opens window then
        .ok ⟨b.direction, b.order, b.opens, b.latestArrival, window, b.cut⟩
      else .error .windowOutOfRange

/-- The JSON value in a row of bytes. -/
def jsonOfBytes? (bytes : List UInt8) : Option Json := do
  Json.read? (← String.fromUTF8? ⟨bytes.toArray⟩).toList

/-- The cursor in a token. Blanks around the token mean nothing. -/
def decode (token : String) : Except CursorError PageCursor :=
  match Base64Url.decode? (Text.trim token.toList) with
  | none => .error .notBase64
  | some bytes =>
    match (jsonOfBytes? bytes).bind Body.ofJson? with
    | none => .error .notACursor
    | some body => ofBody body

end PageCursor
end JourneyPages
