/-!
Identifiers of routes, trips, stops and stations. The text of an identifier is its feed, a colon
and the name inside that feed; it is read at the first colon.
-/
namespace JourneyPages

/-- Why a text or a pair of texts is no identifier. -/
inductive IdError
  | noSeparator
  | emptyFeed
  | separatorInFeed
  | emptyName
  deriving DecidableEq, Repr

def IdError.reason : IdError → String
  | noSeparator => "expected <feed>:<id>"
  | emptyFeed => "feed id must not be empty"
  | separatorInFeed => "feed id must not contain ':'"
  | emptyName => "id must not be empty"

def IdError.message (e : IdError) : String := "invalid feed-scoped id: " ++ e.reason

/-- An identifier, scoped by the feed it comes from. -/
@[ext] structure ScopedId where
  feed : String
  name : String
  feed_ne_empty : feed ≠ ""
  separator_not_mem : ':' ∉ feed.toList
  name_ne_empty : name ≠ ""
  deriving DecidableEq

namespace ScopedId

def make (feed name : String) : Except IdError ScopedId :=
  if hf : feed = "" then .error .emptyFeed
  else if hs : ':' ∈ feed.toList then .error .separatorInFeed
  else if hn : name = "" then .error .emptyName
  else .ok ⟨feed, name, hf, hs, hn⟩

def text (i : ScopedId) : String := i.feed ++ ":" ++ i.name

/-- The identifier that a text denotes. -/
def read (s : String) : Except IdError ScopedId :=
  match s.toList.dropWhile (· ≠ ':') with
  | [] => .error .noSeparator
  | _ :: name => make (String.ofList (s.toList.takeWhile (· ≠ ':'))) (String.ofList name)

end ScopedId
end JourneyPages
