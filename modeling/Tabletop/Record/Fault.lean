import Tabletop.Value

/-!
Why a record is refused: each fault names the place in the record and what is wrong there. Reading a
record goes on after a fault, so that one reading reports all of them; only a value that its reader
cannot work with at all ends the reading.
-/

set_option autoImplicit false

namespace Tabletop

inductive FaultKind where
  | stringType
  | stringUnicode
  | intType
  | intParsing
  | intParsingSize
  | intFromFloat
  | finiteNumber
  | floatType
  | floatParsing
  | greaterThanEqual
  | moment
  | literal
  | listType
  | tupleType
  | setType
  | frozenSetType
  | dictType
  | modelType
  | missing
  | valueError
deriving DecidableEq, Repr

def FaultKind.label : FaultKind → String
  | .stringType => "string_type"
  | .stringUnicode => "string_unicode"
  | .intType => "int_type"
  | .intParsing => "int_parsing"
  | .intParsingSize => "int_parsing_size"
  | .intFromFloat => "int_from_float"
  | .finiteNumber => "finite_number"
  | .floatType => "float_type"
  | .floatParsing => "float_parsing"
  | .greaterThanEqual => "greater_than_equal"
  | .moment => "datetime"
  | .literal => "literal_error"
  | .listType => "list_type"
  | .tupleType => "tuple_type"
  | .setType => "set_type"
  | .frozenSetType => "frozen_set_type"
  | .dictType => "dict_type"
  | .modelType => "model_type"
  | .missing => "missing"
  | .valueError => "value_error"

inductive Step where
  | name (text : String)
  | index (n : Int)
deriving DecidableEq, Repr

structure Fault where
  path : List Step
  kind : FaultKind
deriving DecidableEq, Repr

inductive Checked (α : Type) where
  | ok (a : α)
  | refused (faults : List Fault)
  | broken (cause : Breakdown)
deriving Repr

namespace Checked

variable {α β : Type}

def fault (kind : FaultKind) : Checked α :=
  .refused [⟨[], kind⟩]

def map (f : α → β) : Checked α → Checked β
  | .ok a => .ok (f a)
  | .refused fs => .refused fs
  | .broken c => .broken c

-- the faults of both parts are kept
def seq : Checked (α → β) → Checked α → Checked β
  | .broken c, _ => .broken c
  | _, .broken c => .broken c
  | .ok f, .ok a => .ok (f a)
  | .ok _, .refused gs => .refused gs
  | .refused fs, .ok _ => .refused fs
  | .refused fs, .refused gs => .refused (fs ++ gs)

instance : Functor Checked where
  map := map

instance : Applicative Checked where
  pure := .ok
  seq f x := seq f (x ())

def within (step : Step) : Checked α → Checked α
  | .ok a => .ok a
  | .refused fs => .refused (fs.map fun f => { f with path := step :: f.path })
  | .broken c => .broken c

def ofOption (kind : FaultKind) : Option α → Checked α
  | some a => .ok a
  | none => fault kind

-- a value that is merely unfit is a fault at its place, any other breakdown ends the reading
def ofExcept : Except Breakdown α → Checked α
  | .ok a => .ok a
  | .error (.badValue _) => fault .valueError
  | .error c => .broken c

def andThen (x : Checked α) (f : α → Checked β) : Checked β :=
  match x with
  | .ok a => f a
  | .refused fs => .refused fs
  | .broken c => .broken c

-- every element is read, in order
def all (read : α → Checked β) : Nat → List α → Checked (List β)
  | _, [] => .ok []
  | i, x :: xs => (List.cons <$> (read x).within (.index i)) <*> all read (i + 1) xs

end Checked

end Tabletop
