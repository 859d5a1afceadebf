import JourneyPages.Document.Preferences
import JourneyPages.Document.Request
import JourneyPages.Document.Response

/-!
What the command answers to the files it is given.
-/
namespace JourneyPages.CommandLine

/-- How a run of the command ends. -/
structure Outcome where
  exitCode : Nat
  output : String
  errors : String
  deriving DecidableEq, Repr

def usage : Outcome :=
  ⟨2, "", "usage: itinerary-pipeline <request.json> [preferences.json]\n"⟩

def failure (message : String) : Outcome := ⟨1, "", "Error: " ++ message ++ "\n"⟩

/-- The preferences in a file, or the standard ones if there is no such argument. A file whose
text cannot be had is `none`. -/
def preferences : List (Option String) → Except String Preferences
  | [] => .ok .standard
  | none :: _ => .error "failed to read preferences"
  | some text :: _ =>
    match Preferences.read? text with
    | some p => .ok p
    | none => .error "invalid preferences"

/-- The response document for a request file, indented. -/
def respond (request : Option String) (p : Preferences) : Except String String :=
  match request with
  | none => .error "failed to read the request"
  | some text =>
    match (Json.read? text.toList).bind RequestDocument.ofJson? with
    | none => .error "invalid request"
    | some d => Except.mapError ResponseError.message do
      let (r, its) ← d.parts
      let response ← r.respond its p []
      pure (String.ofList ((response.toJson Json.float).indented 0 ++ ['\n']))

/-- The answer to the texts of the files named: the request, then the preferences if any. The
preferences are read first. -/
def run : List (Option String) → Outcome
  | [] => usage
  | request :: rest =>
    match preferences rest >>= respond request with
    | .ok text => ⟨0, text, ""⟩
    | .error message => failure message

end JourneyPages.CommandLine
