import Tabletop.Text.Digit
import Tabletop.Text.Quoted

/-!
Whole numbers in texts, to a base. Blanks may stand around a number, a sign in front of it, and a single
underscore before any digit but the first. Decimal digits are those of any script.
-/

set_option autoImplicit false

namespace Tabletop.Text

inductive IntegerFault where
  | notANumber
  | tooLong (digits : Nat)
deriving DecidableEq, Repr

def maxDigits : Nat := 4300

def tooLongMessage (digits : Nat) : String :=
  "Exceeds the limit (" ++ toString maxDigits ++
    " digits) for integer string conversion: value has " ++ toString digits ++
    " digits; use sys.set_int_max_str_digits() to increase the limit"

-- a number whose text would be too long
def tooLargeMessage : String :=
  "Exceeds the limit (" ++ toString maxDigits ++
    " digits) for integer string conversion; use sys.set_int_max_str_digits() to increase the limit"

-- a long text is cut in a message
def longestQuote : Nat := 200

def IntegerFault.message (base : Nat) (s : String) : IntegerFault → String
  | .notANumber =>
    "invalid literal for int() with base " ++ toString base ++ ": " ++
      String.ofList ((quoted s).toList.take longestQuote)
  | .tooLong n => tooLongMessage n

def digitIn? (base : Nat) (c : Char) : Option Nat :=
  ((decimalValue? c).orElse fun _ => hexValue? c).filter (· < base)

-- the digits that go on a number, a single underscore before any of them, and what follows
def moreDigits (base : Nat) : List Char → List Nat × List Char
  | [] => ([], [])
  | '_' :: c :: rest =>
    match digitIn? base c with
    | some d => (d :: (moreDigits base rest).1, (moreDigits base rest).2)
    | none => ([], '_' :: c :: rest)
  | c :: rest =>
    match digitIn? base c with
    | some d => (d :: (moreDigits base rest).1, (moreDigits base rest).2)
    | none => ([], c :: rest)

def readDigits (base : Nat) : List Char → Option (List Nat × List Char)
  | [] => none
  | c :: rest =>
    (digitIn? base c).map fun d => (d :: (moreDigits base rest).1, (moreDigits base rest).2)

def baseMarks : List (Nat × Char) :=
  [(2, 'b'), (2, 'B'), (8, 'o'), (8, 'O'), (16, 'x'), (16, 'X')]

-- a zero and the letter of the base may stand in front
def dropBaseMark (base : Nat) : List Char → List Char
  | '0' :: m :: '_' :: rest => if baseMarks.contains (base, m) then rest else '0' :: m :: '_' :: rest
  | '0' :: m :: rest => if baseMarks.contains (base, m) then rest else '0' :: m :: rest
  | cs => cs

def splitMinus : List Char → Bool × List Char
  | '-' :: cs => (true, cs)
  | '+' :: cs => (false, cs)
  | cs => (false, cs)

-- only decimal numbers are limited in length
def isTooLong (base : Nat) (ds : List Nat) : Bool :=
  base = 10 && maxDigits < ds.length

def readIn (base : Nat) (s : String) : Except IntegerFault Int :=
  let (negative, body) := splitMinus (trimBy isWhite s.toList)
  match readDigits base (dropBaseMark base body) with
  | none => .error .notANumber
  | some (ds, tail) =>
    if isTooLong base ds then .error (.tooLong ds.length)
    else if tail.isEmpty then
      let n : Int := digitsValue base ds
      .ok (if negative then -n else n)
    else .error .notANumber

def readInteger (s : String) : Except IntegerFault Int :=
  readIn 10 s

end Tabletop.Text
