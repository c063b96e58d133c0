import FormatCode.Numeral

/-!
# Faults

Everything that can go wrong while a format is read, a value is shown or a node is used, one
constructor per cause, with the wording of each in one place. The names of kinds of value appear in
the wording, so they are carried as text, and so are the written forms of values.

## Main definitions

* `Misuse`, `Fault` — the causes.
* `Fault.message` — what is reported for each.
-/

namespace FormatCode

/-- Why an operation is not defined for what it is given. -/
inductive Misuse
  /-- An operator has no meaning for two values. -/
  | operands (operator left right : String)
  /-- Nothing is given to what makes nodes of a kind. -/
  | arguments (kind : String)
  /-- A function has no argument of a name. -/
  | argument (function name : String)
  /-- A function has an argument of a name already. -/
  | repeated (function name : String)
  /-- What the nodes of a kind have in common is to be stored in one of them. -/
  | shadowing (kind name : String)
  /-- A node that is part of itself is to be gone through as a whole. -/
  | endless
deriving DecidableEq, Repr

namespace Misuse

def message : Misuse → String
  | operands operator left right =>
    "unsupported operand type(s) for " ++ operator ++ ": '" ++ left ++ "' and '" ++ right ++ "'"
  | arguments kind => kind ++ "() takes no arguments"
  | argument function name => function ++ "() got an unexpected keyword argument '" ++ name ++ "'"
  | repeated function name => function ++ "() got multiple values for argument '" ++ name ++ "'"
  | shadowing kind name => kind ++ "." ++ name ++ " is common to all nodes of the kind"
  | endless => "maximum recursion depth exceeded"

end Misuse

inductive Fault
  /-- A format, or a text to scan, is not text. -/
  | notText (received : String)
  /-- A value to show is neither a number nor text. -/
  | notShowable (received : String)
  /-- A value that has to be a number is none. -/
  | notReal (received : String)
  /-- A value whose members are wanted has none. -/
  | notIterable (received : String)
  /-- A value whose members are to be counted cannot tell how many it has. -/
  | notSized (received : String)
  /-- A value has no members to be taken by position. -/
  | notIndexable (received : String)
  /-- A sequence has no member at a position. -/
  | outOfRange (sequence : String)
  /-- A value does not have an attribute. -/
  | noAttribute (received name : String)
  /-- One of the pieces to join is no text. -/
  | notTextItem (position : Nat) (received : String)
  /-- Two values have no order. -/
  | unordered (symbol left right : String)
  /-- An operation is not defined for what it is given. -/
  | undefined (misuse : Misuse)
  /-- Something was to be stored in a frozen node. -/
  | readOnly (kind : String)
  /-- A value of a kind that is not looked up in tables. -/
  | notKey (received : String)
  /-- A signaling NaN was to be looked up. -/
  | signalingKey
  /-- A comparison operator that is none of the six, in its written form. -/
  | unknownOperator (written : String)
  /-- A placeholder that is none of the three, in its written form. -/
  | unknownPlaceholder (written : String)
  /-- A name, in its written form, that stands for nothing. -/
  | unknownName (written : String)
  /-- A whole number has too many digits to be written. -/
  | tooLongToWrite
  /-- A numeral has too many digits to be read. -/
  | tooLongToRead (digits : Nat)
  /-- A whole number lies beyond the binary floating-point numbers. -/
  | wholeTooLarge
  /-- A quotient lies beyond the binary floating-point numbers. -/
  | quotientTooLarge
  /-- A power lies beyond the binary floating-point numbers. -/
  | powerTooLarge
  /-- A power to a complex exponent lies beyond the binary floating-point numbers. -/
  | complexPowerTooLarge
  /-- A decimal result lies beyond the exponent range. -/
  | decimalOverflow
  /-- A decimal operation has no defined result. -/
  | decimalInvalid
deriving DecidableEq, Repr

namespace Fault

/-- What both faults about long numerals begin with. -/
def digitLimit : String := "Exceeds the limit (4300 digits) for integer string conversion"

def digitLimitAdvice : String := "; use sys.set_int_max_str_digits() to increase the limit"

def message : Fault → String
  | notText received => "Expected str, received " ++ received
  | notShowable received => "Expected a number or str, received " ++ received
  | notReal received => "must be real number, not " ++ received
  | notIterable received => "'" ++ received ++ "' object is not iterable"
  | notSized received => "object of type '" ++ received ++ "' has no len()"
  | notIndexable received => "'" ++ received ++ "' object is not subscriptable"
  | outOfRange sequence => sequence ++ "index out of range"
  | noAttribute received name =>
    "'" ++ received ++ "' object has no attribute '" ++ name ++ "'"
  | notTextItem position received =>
    "sequence item " ++ String.ofList (Numeral.digits position) ++ ": expected str instance, " ++
      received ++ " found"
  | unordered symbol left right =>
    "'" ++ symbol ++ "' not supported between instances of '" ++ left ++ "' and '" ++ right ++ "'"
  | undefined misuse => misuse.message
  | readOnly kind => kind ++ " is read-only"
  | notKey received => "unhashable type: '" ++ received ++ "'"
  | signalingKey => "Cannot hash a signaling NaN value"
  | unknownOperator written | unknownPlaceholder written | unknownName written => written
  | tooLongToWrite => digitLimit ++ digitLimitAdvice
  | tooLongToRead digits =>
    digitLimit ++ ": value has " ++ String.ofList (Numeral.digits digits) ++ " digits"
      ++ digitLimitAdvice
  | wholeTooLarge => "int too large to convert to float"
  | quotientTooLarge => "integer division result too large for a float"
  | powerTooLarge => "(34, 'Numerical result out of range')"
  | complexPowerTooLarge => "complex exponentiation"
  | decimalOverflow => "[<class 'decimal.Overflow'>]"
  | decimalInvalid => "[<class 'decimal.InvalidOperation'>]"

end Fault

end FormatCode
