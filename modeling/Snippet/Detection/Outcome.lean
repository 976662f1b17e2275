import Snippet.Formatter
import Snippet.Rating.Table

/-!
# Detectors and their outcomes

A detector looks at a text and its context and declines, replaces the text, or asks for an action.
It may also fail; a failure is a value here, so that whoever runs a detector decides what to make
of it.
-/

namespace Snippet

/-- What an action opens. -/
inductive EffectKind where
  | openUrl
  | openPath
  deriving DecidableEq, Repr

/-- An action for the host, which is never performed here. -/
structure SideEffect where
  kind : EffectKind
  /-- The address or path. -/
  payload : Text
  /-- A notice for people. -/
  message : Text
  deriving DecidableEq, Repr

/-- What a detector makes of a text. -/
inductive Outcome where
  | noMatch
  /-- A replacement. -/
  | text (t : Text)
  /-- A text to show and an action. -/
  | sideEffect (display : Text) (effect : SideEffect)
  deriving DecidableEq, Repr

namespace Outcome

/-- The outcome of a replacement that may be missing. -/
def ofOption : Option Text → Outcome
  | some t => text t
  | none => noMatch

/-- Whether the detector matched. -/
def isMatch : Outcome → Bool
  | noMatch => false
  | _ => true

/-- The text to show. -/
def display? : Outcome → Option Text
  | noMatch => none
  | text t => some t
  | sideEffect t _ => some t

/-- The action to ask for. -/
def effect? : Outcome → Option SideEffect
  | sideEffect _ e => some e
  | _ => none

end Outcome

/-- An entry in the log of matches. -/
structure MatchRecord where
  id : String
  /-- The text that the detector shows. -/
  raw : Text
  deriving DecidableEq, Repr

/-- Whether detectors are run on a part of the input or on all of it. -/
inductive Scope where
  | seed
  | whole
  deriving DecidableEq, Repr

/-- What a detector may depend on besides the text. -/
structure Context where
  config : Config
  ratings : RatingTable
  /-- The date that missing years are taken from. -/
  today : Date
  scope : Scope
  /-- The matches of the detectors that ran before. -/
  log : List MatchRecord

/-- What a formatter may depend on. -/
def Context.settings (c : Context) : Settings := ⟨c.config, c.today⟩

/-- How a detector can fail. -/
inductive Fault where
  /-- It reports an error. -/
  | failed (message : Text)
  /-- It breaks off. -/
  | aborted
  deriving DecidableEq, Repr

/-- A detector. Detectors of lower priority numbers run first. -/
structure Detector where
  id : String
  priority : Int
  detect : Context → Text → Except Fault Outcome

end Snippet
