import Snippet.Detection.Outcome
import Snippet.Navigation.Detector

/-!
# The detector registry

Detectors are kept in the order of their priorities; of equal priorities, the one that was
registered first runs first. A dispatch runs every detector once. Each is shown the matches of those
before it; one that fails counts as one that does not match.
-/

namespace Snippet

/-- What the detectors of a registry make of a text. -/
structure DispatchResult where
  /-- The text shown by the first detector that matched. -/
  primary : Option Text := none
  /-- The first detector that matched. -/
  matchedId : Option String := none
  /-- All matches, in the order of the detectors. -/
  log : List MatchRecord := []
  /-- The last action that was asked for. -/
  effect : Option SideEffect := none
  /-- Whether the last action comes from navigation. -/
  byNavigation : Bool := false
  deriving DecidableEq

namespace DispatchResult

/-- Whether anything matched. -/
def matched (r : DispatchResult) : Bool := !r.log.isEmpty

/-- The result with a further match. -/
def addMatch (r : DispatchResult) (id : String) (display : Text) (effect : Option SideEffect) :
    DispatchResult where
  primary := r.primary.orElse fun _ => some display
  matchedId := if r.primary.isSome then r.matchedId else some id
  log := r.log ++ [⟨id, display⟩]
  effect := effect.orElse fun _ => r.effect
  byNavigation := if effect.isSome then id == Navigation.id else r.byNavigation

/-- The result with a further outcome. -/
def addOutcome (r : DispatchResult) (id : String) : Outcome → DispatchResult
  | .noMatch => r
  | .text t => r.addMatch id t none
  | .sideEffect t effect => r.addMatch id t (some effect)

end DispatchResult

/-- The outcome of a detector, where a failure counts as no match. -/
def Detector.outcome (d : Detector) (ctx : Context) (t : Text) : Outcome :=
  match d.detect ctx t with
  | .ok outcome => outcome
  | .error _ => .noMatch

/-- Detectors in the order in which they run. -/
structure DetectorRegistry where
  detectors : List Detector := []

namespace DetectorRegistry

/-- The ids in the order in which the detectors run. -/
def ids (r : DetectorRegistry) : List String := r.detectors.map Detector.id

/-- The number of detectors. -/
def size (r : DetectorRegistry) : Nat := r.detectors.length

/-- Puts a detector behind all of its priority or a lower one. -/
def insertByPriority (d : Detector) : List Detector → List Detector
  | [] => [d]
  | e :: es => if d.priority < e.priority then d :: e :: es else e :: insertByPriority d es

/-- Adds a detector; its id must not be blank, nor registered already. -/
def register (r : DetectorRegistry) (d : Detector) : Except RegistryError DetectorRegistry :=
  if isBlankId d.id then throw .emptyId
  else if r.ids.contains d.id then throw (.duplicateId d.id)
  else pure ⟨insertByPriority d r.detectors⟩

/-- Runs a detector after those whose result is given. -/
def runNext (base : Context) (t : Text) (r : DispatchResult) (d : Detector) : DispatchResult :=
  r.addOutcome d.id (d.outcome { base with log := r.log } t)

/-- Runs every detector once. The log of the context is replaced by that of the dispatch. -/
def dispatch (r : DetectorRegistry) (base : Context) (t : Text) : DispatchResult :=
  r.detectors.foldl (runNext base t) {}

end DetectorRegistry

end Snippet
