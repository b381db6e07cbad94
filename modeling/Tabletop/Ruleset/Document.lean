import Tabletop.Ruleset.Import
import Tabletop.Yaml

set_option autoImplicit false

namespace Tabletop.Ruleset

def readJson (text : String) : Except Failure Value :=
  match Json.parse text with
  | .ok v => .ok v
  | .error (.problem kind position) => .error (.rulesetInvalid (.badJson kind text position))
  | .error (.longNumber n) => .error (.breakdown (.badValue (Text.tooLongMessage n)))

def readYaml (format text : String) : Except Failure Value :=
  match Yaml.load text with
  | .ok v => .ok v
  | .error .malformed => .error (.rulesetInvalid (.badText (Text.upper format)))
  | .error (.broken c) => .error (.breakdown c)

def jsonFormat : String := "json"
def yamlFormat : String := "yaml"

def readDocument (format text : String) : Except Failure Value :=
  if format = jsonFormat then readJson text else readYaml format text

def ofText (now : Moment) (format text : String) : Noted Ruleset :=
  match readDocument format text with
  | .ok v => ofDocument now v
  | .error f => .fail f

end Tabletop.Ruleset
