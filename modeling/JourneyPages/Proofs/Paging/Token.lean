import JourneyPages.Paging.Token
import JourneyPages.Proofs.Json
import JourneyPages.Proofs.Time.Rfc3339
import JourneyPages.Response

/-!
Page cursors in their tokens. Base64, JSON and times are each read back, so that a token comes down
to the body of the cursor it was made from; what a body stands for is then a matter of its window
alone.
-/
namespace JourneyPages

theorem Base64Url.isBlank_symbol (n : Nat) : Text.isBlank (symbol n) = false := by
  by_cases h : n < 64
  · have hall : ∀ n : Fin 64, Text.isBlank (symbol n) = false := by decide
    exact hall ⟨n, h⟩
  · have hlast : symbol n = '_' := by
      unfold symbol
      repeat rw [if_neg (by omega)]
    rw [hlast]
    decide

theorem Base64Url.isBlank_of_mem_encode {bytes : List UInt8} :
    ∀ c ∈ encode bytes, Text.isBlank c = false := by
  fun_induction encode bytes <;> simp_all [isBlank_symbol]

/-! Pieces of documents -/

@[simp] theorem Instant.ofJson?_toJson (t : Instant) : Instant.ofJson? t.toJson = some t := by
  simp [Instant.ofJson?, Instant.toJson, Json.ofChars, Json.text, Json.string?]

@[simp] theorem Cost.ofJson?_toJson (c : Cost) : Cost.ofJson? c.toJson = some c := by
  rw [Cost.ofJson?, Cost.toJson, Json.intIn?_int c.inRange]
  rfl

namespace SortKey

theorem wellFormed_toJson (k : SortKey) : k.toJson.WellFormed := by
  apply Json.wellFormed_record
  simp only [List.forall_mem_cons]
  exact ⟨.text _, .text _, Json.wellFormed_int _, Json.wellFormed_int _, .bool _, by simp⟩

@[simp] theorem ofJson?_toJson (k : SortKey) : ofJson? k.toJson = some k := by
  have htransfers : 0 ≤ (k.transfers : Int) ∧ (k.transfers : Int) ≤ 18446744073709551615 := by
    have := k.transfers_lt
    omega
  rw [ofJson?, toJson, Json.record?_record true (by simp) (by simp)]
  simp [Json.Record.required?, Json.Record.slot, List.lookup_cons, Json.Slot.ofMember,
    Json.intIn?_int htransfers, Json.bool?]

end SortKey

namespace PageCursor

theorem wellFormed_toJson (c : PageCursor) : c.toJson.WellFormed := by
  apply Json.wellFormed_record
  simp only [List.forall_mem_append, List.forall_mem_cons, List.forall_mem_map]
  and_intros
  · exact Json.wellFormed_int version
  · exact .text _
  · exact .text _
  · exact .text _
  · simp
  · exact fun _ _ => .text _
  · exact Json.wellFormed_int _
  · simp
  · exact fun k _ => k.wellFormed_toJson

/-- The body of the token of a cursor. -/
def body (c : PageCursor) : Body :=
  ⟨version, c.direction, c.order, c.opens, c.latestArrival, c.window.wholeSeconds, c.cut⟩

theorem int64?_wholeSeconds (window : Span) :
    Json.int64? (.int window.wholeSeconds) = some window.wholeSeconds := by
  have hrange := window.inRange
  have habs : window.wholeSeconds.natAbs = window.nanos.natAbs / 1000000000 :=
    Int.natAbs_tdiv window.nanos 1000000000
  have hint : -9223372036854775808 ≤ window.wholeSeconds ∧
      window.wholeSeconds ≤ 9223372036854775807 := by omega
  rw [Json.int64?, Json.intIn?_int hint]
  rfl

/-- The fields of a token are those of its cursor. -/
theorem ofJson?_toJson (c : PageCursor) : Body.ofJson? c.toJson = some c.body := by
  obtain ⟨direction, order, opens, latestArrival, window, cut⟩ := c
  have hversion : Json.intIn? 0 4294967295 (.int version) = some ⟨version, by decide⟩ :=
    Json.intIn?_int _
  have hdirection : Json.named? PageDirection.names (.text direction.text) = some direction := by
    cases direction <;> rfl
  have horder : Json.named? SortOrder.names (.text order.text) = some order := by
    cases order <;> rfl
  have hseconds := int64?_wholeSeconds window
  have hlat (t : Instant) : Json.nullable? Instant.ofJson? t.toJson = some (some t) :=
    Json.nullable?_of_eq_some (by simp [Instant.toJson, Json.ofChars, Json.text])
      (Instant.ofJson?_toJson t)
  have hcut (k : SortKey) : Json.nullable? SortKey.ofJson? k.toJson = some (some k) :=
    Json.nullable?_of_eq_some (by simp [SortKey.toJson, Json.record]) (SortKey.ofJson?_toJson k)
  cases latestArrival <;> cases cut <;>
    rw [Body.ofJson?, toJson, Json.record?_record true (by simp) (by simp)] <;>
    simp [Json.Record.required?, Json.Record.defaulted?, Json.Record.slot, List.lookup_cons,
      Json.Slot.ofMember, hversion, hdirection, horder, hseconds, hlat, hcut, body]

/-- A token comes down to the body of the cursor it was made from. -/
theorem decode_encode_eq (c : PageCursor) : decode c.encode = ofBody c.body := by
  have htrim : Text.trim c.encode.toList = c.encode.toList := by
    rw [encode, String.toList_ofList]
    exact Text.trim_of_not_blank Base64Url.isBlank_of_mem_encode
  have hbytes : jsonOfBytes? (String.ofList c.toJson.compact).toUTF8.data.toList =
      some c.toJson := by
    have hutf8 (s : String) : String.fromUTF8? ⟨s.toUTF8.data.toList.toArray⟩ = some s :=
      dif_pos s.isValidUTF8
    rw [jsonOfBytes?, hutf8]
    exact (congrArg Json.read? String.toList_ofList).trans
      (Json.read?_compact c.wellFormed_toJson)
  rw [decode, htrim, encode, String.toList_ofList, Base64Url.decode?_encode]
  simp only [hbytes, Option.bind_some, ofJson?_toJson]

/-- A cursor that a token can hold: its window is a natural number of seconds, and it reaches only
to instants that there are. -/
structure Travels (c : PageCursor) : Prop where
  zero_le : Span.zero ≤ c.window
  seconds : 1000000000 ∣ c.window.nanos
  reachable : reachable c.opens c.window

theorem ofBody_body {c : PageCursor} (h : c.Travels) : ofBody c.body = .ok c := by
  have hzero : 0 ≤ c.window.nanos := h.zero_le
  -- Only a window without a fraction of a second is the same in whole seconds.
  have hexact : c.window.wholeSeconds * 1000000000 = c.window.nanos :=
    Int.tdiv_mul_cancel h.seconds
  have hwindow : Span.seconds? c.window.wholeSeconds = some c.window := by
    rw [Span.seconds?, hexact, Span.ofNanos?_nanos]
  have hpos : ¬ c.window.wholeSeconds < 0 := by omega
  simp only [ofBody, body, ne_eq, not_true_eq_false, if_false, hpos, hwindow, h.reachable, if_true]

theorem travels_of_ofBody {b : Body} {c : PageCursor} (h : ofBody b = .ok c) : c.Travels := by
  unfold ofBody at h
  split_ifs at h with _ hneg
  split at h
  case h_1 => cases h
  case h_2 window hwindow =>
    split_ifs at h with hreachable
    cases h
    rw [Span.seconds?, Span.ofNanos?_eq_some_iff] at hwindow
    refine ⟨?_, Dvd.intro_left b.seconds hwindow.symm, hreachable⟩
    rw [Span.le_iff, hwindow]
    show (0 : Int) ≤ b.seconds * 1000000000
    omega

/-- Only such cursors come out of tokens. -/
theorem travels_of_decode {token : String} {c : PageCursor} (h : decode token = .ok c) :
    c.Travels := by
  unfold decode at h
  split at h
  case h_1 => cases h
  case h_2 =>
    split at h
    case h_1 => cases h
    case h_2 => exact travels_of_ofBody h

theorem decode_encode_iff (c : PageCursor) : decode c.encode = .ok c ↔ c.Travels :=
  ⟨travels_of_decode, fun h => (decode_encode_eq c).trans (ofBody_body h)⟩

/-- A request that follows such a cursor keeps the paging contract. -/
theorem validate_withCursor {c : PageCursor} (h : c.Travels) (r : SearchRequest) :
    (r.withCursor c).page.validate = .ok () := by
  have hpos : ¬ c.window < Span.zero := Int.not_lt.mpr h.zero_le
  simp [PageRequest.validate, SearchRequest.page, SearchRequest.withCursor, hpos, h.reachable]

/-- Every cursor that a token can hold is read back from its token. Only such cursors come out of
tokens, and each of them leads to a request that keeps the paging contract. -/
theorem decode_encode : (∀ c : PageCursor, c.Travels → decode c.encode = .ok c) ∧
    ∀ (token : String) (c : PageCursor), decode token = .ok c →
      decode c.encode = .ok c ∧
        ∀ r : SearchRequest, (r.withCursor c).page.validate = .ok () := by
  refine ⟨fun c => (decode_encode_iff c).mpr, fun token c h => ?_⟩
  have htravels := travels_of_decode h
  exact ⟨(decode_encode_iff c).mpr htravels, validate_withCursor htravels⟩

/-- A cursor with all fields: the window opens within the leap second of 2016, the latest arrival is
in a year of five digits, and the cut starts before the first year. -/
def farCursor : PageCursor where
  direction := .previous
  order := .streetAndDeparture
  opens := ⟨1507949279000250000, by decide⟩
  latestArrival := some ⟨257625672480000000001, by decide⟩
  window := ⟨7200000000000, by decide⟩
  cut := some {
    start := ⟨-63235401120000000000, by decide⟩
    finish := ⟨0, by decide⟩
    cost := ⟨-1, by decide⟩
    transfers := 3
    streetOnly := false
    transfers_lt := by decide }

theorem decode_encode_farCursor : farCursor.Travels ∧ decode farCursor.encode = .ok farCursor ∧
    ∀ r : SearchRequest, (r.withCursor farCursor).page.validate = .ok () := by
  have htravels : farCursor.Travels := ⟨by decide, by decide, by decide⟩
  have hback := decode_encode.1 farCursor htravels
  exact ⟨htravels, hback, (decode_encode.2 farCursor.encode farCursor hback).2⟩

end PageCursor
end JourneyPages
