import Snippet.Detection.Outcome
import Snippet.Navigation.WebAddress
import Snippet.Pattern.Catalog
import Snippet.Template

/-!
# Navigation

A text that no other detector matches is a target: a web address, an address of an application, a
domain name, a path, or else something to search for. The text itself is kept; the action says what
to open.
-/

namespace Snippet.Navigation

/-- The ends of domain names that are accepted without a scheme. -/
def knownEndings : List String :=
  ["com", "org", "net", "edu", "gov", "mil", "int", "io", "dev", "app", "ai", "co", "me", "info",
    "biz", "xyz", "tech", "site", "online", "blog", "news", "cloud", "us", "uk", "ca", "de", "fr",
    "es", "it", "nl", "se", "no", "fi", "dk", "pl", "ch", "at", "be", "ie", "au", "nz", "jp", "cn",
    "in", "br", "mx", "ru", "kr", "tv", "fm", "gg", "ly", "sh", "rs"]

/-- The notice that something is opened. -/
def openingMessage (payload : Text) : Text := "Opening ".toList ++ payload

/-- Opens an address. -/
def openUrl (address : Text) : SideEffect := ⟨.openUrl, address, openingMessage address⟩

/-- Opens a path. -/
def openPath (path : Text) : SideEffect := ⟨.openPath, path, openingMessage path⟩

/-- Searches the web. -/
def search (searchUrl query : Text) : SideEffect where
  kind := .openUrl
  payload := Template.render searchUrl [("query".toList, Percent.formEncode query)]
  message := "Searching the web for \"".toList ++ query ++ ['"']

/-- The web address that a target writes with its scheme. -/
def webAddress? (target : Text) : Option WebAddress :=
  if Pattern.url.matchesAll target then WebAddress.ofText? target else none

/-- Whether a target is a domain name with a known ending. -/
def hasKnownEnding (target : Text) : Bool :=
  ((Pattern.domain.full? target).bind fun m => m.text? target 1).any fun ending =>
    knownEndings.contains (String.ofList (Text.lower ending))

/-- The web address of a target that is a domain name with a known ending. -/
def domainAddress? (target : Text) : Option WebAddress :=
  if hasKnownEnding target then WebAddress.ofText? ("https://".toList ++ target) else none

/-- Whether a text can be searched for: it has one line and is not too long. -/
def isSearchable (config : Config) (target : Text) : Bool :=
  !target.contains '\n' && target.length ≤ config.maxSearchLength

/-- The action for a target. -/
def effect? (config : Config) (target : Text) : Option SideEffect :=
  match webAddress? target with
  | some address => some (openUrl address.toText)
  | none =>
    if Pattern.appUrl.matchesAll target then some (openUrl target)
    else
      match domainAddress? target with
      | some address => some (openUrl address.toText)
      | none =>
        if Pattern.filePath.matchesAll target then some (openPath target)
        else if isSearchable config target then some (search config.searchUrl target)
        else none

/-- The outcome for a text: an action, if navigation is on, all of the input is looked at, nothing
else has matched, and the text is not blank. -/
def detect (ctx : Context) (t : Text) : Outcome :=
  let target := Text.trim t
  if !ctx.config.navigationEnabled || ctx.scope ≠ .whole || !ctx.log.isEmpty || target.isEmpty then
    .noMatch
  else
    match effect? ctx.config target with
    | some effect => .sideEffect t effect
    | none => .noMatch

/-- The id of the detector. -/
def id : String := "navigation"

/-- The detector of targets, which runs last. -/
def detector : Detector := ⟨id, 1000, fun ctx t => pure (detect ctx t)⟩

end Snippet.Navigation
