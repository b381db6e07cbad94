set_option autoImplicit false

namespace Tabletop

inductive Severity where
  | error
  | warning
  | info
deriving DecidableEq, Repr

def Severity.label : Severity → String
  | .error => "error"
  | .warning => "warning"
  | .info => "info"

structure Issue where
  severity : Severity
  kind : String
  message : String
  field : String
  suggestion : Option String
deriving DecidableEq, Repr

structure Report where
  subject : String
  issues : List Issue
deriving DecidableEq, Repr

namespace Report

def ofSeverity (r : Report) (s : Severity) : List Issue :=
  r.issues.filter fun i => i.severity = s

def errors (r : Report) : List Issue := r.ofSeverity .error
def warnings (r : Report) : List Issue := r.ofSeverity .warning
def infos (r : Report) : List Issue := r.ofSeverity .info

def valid (r : Report) : Bool :=
  r.errors.isEmpty

def issueLines (i : Issue) : List String :=
  ("  - [" ++ i.kind ++ "] " ++ i.field ++ ": " ++ i.message) ::
    match i.suggestion with
    | some s => if s.isEmpty then [] else ["    Suggestion: " ++ s]
    | none => []

def sectionLines (title : String) (issues : List Issue) : List String :=
  if issues.isEmpty then [] else ("\n" ++ title ++ ":") :: issues.flatMap issueLines

def text (r : Report) : String :=
  "\n".intercalate <|
    [("Validation Report for " : String) ++ r.subject,
      "Status: " ++ (if r.valid then "✓ VALID" else "✗ INVALID"),
      "Issues: " ++ toString r.errors.length ++ " errors, " ++ toString r.warnings.length ++
        " warnings, " ++ toString r.infos.length ++ " info"] ++
      sectionLines "Errors" r.errors ++ sectionLines "Warnings" r.warnings ++
      sectionLines "Info" r.infos

end Report

end Tabletop
