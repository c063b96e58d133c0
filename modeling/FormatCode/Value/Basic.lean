import FormatCode.Node.Kind
import FormatCode.Number

/-!
# Values

What callers hand over to be shown, and what the fields of nodes hold: numbers, text, values of
kinds that no format applies to, sequences of values, and nodes.

## Main definitions

* `Value` — the values.
* `Value.typeName`, `Value.qualifiedName` — what the kind of a value is called.
* `CellValue` — the values that formats apply to, text and numbers.
* `Value.toCell` — a value as one to show.
-/

namespace FormatCode

/-- A value of any kind. A node holds a value for each field of its kind. -/
inductive Value
  | null
  | bool (b : Bool)
  | int (i : Int)
  | float (x : Binary64)
  | decimal (d : Decimal)
  | fraction (numerator : Int) (denominator : Nat)
  | complex (re im : Binary64)
  | text (s : String)
  | bytes (octets : List Nat)
  | mapping
  | list (items : List Value)
  | tuple (items : List Value)
  | node (kind : NodeKind) (fields : List Value)
deriving Repr, Inhabited

inductive CellValue
  | text (s : String)
  | number (n : Number)
deriving DecidableEq, Repr

namespace CellValue

def toValue : CellValue → Value
  | .text s => .text s
  | .number (.int i) => .int i
  | .number (.float x) => .float x
  | .number (.decimal d) => .decimal d

end CellValue

namespace Value

def typeName : Value → String
  | null => "NoneType"
  | bool _ => "bool"
  | int _ => "int"
  | float _ => "float"
  | decimal _ => "Decimal"
  | fraction .. => "Fraction"
  | complex .. => "complex"
  | text _ => "str"
  | bytes _ => "bytes"
  | mapping => "dict"
  | list _ => "list"
  | tuple _ => "tuple"
  | node kind _ => kind.name

/-- What the kind of a value is called where an operation on it is not possible. -/
def qualifiedName : Value → String
  | decimal _ => "decimal.Decimal"
  | v => v.typeName

def ofRatio (numerator : Int) (denominator : Nat) : Value :=
  let divisor := Nat.gcd numerator.natAbs denominator
  .fraction (numerator / divisor) (denominator / divisor)

/-- A value as one to show. Text and numbers are, a fraction becomes the nearest binary number, and
all else is refused, truth values included. -/
def toCell : Value → Except Fault CellValue
  | text s => .ok (.text s)
  | int i => .ok (.number (.int i))
  | float x => .ok (.number (.float x))
  | decimal d => .ok (.number (.decimal d))
  | fraction numerator denominator =>
    (Binary64.ofFraction numerator denominator).map fun x => .number (.float x)
  | v => .error (.notShowable v.typeName)

def toText : Value → Except Fault String
  | text s => .ok s
  | v => .error (.notText v.typeName)

def positional : Value → Except Fault Positional
  | int i => (Number.int i).positional
  | float x => (Number.float x).positional
  | decimal d => (Number.decimal d).positional
  | v => .error (.noAttribute v.qualifiedName "normalize")

def decimalText : Value → Except Fault (List Char)
  | bool b => .ok (if b then ['T', 'r', 'u', 'e'] else ['F', 'a', 'l', 's', 'e'])
  | v => v.positional.map (·.text)

/-- The text of a value where no format applies. A truth value counts as one or zero; a fraction has
to lie within the binary numbers, and then has no decimal text. -/
def plainText : Value → Except Fault (List Char)
  | text s => .ok s.toList
  | bool b => .ok [if b then '1' else '0']
  | int i => (Number.int i).plainText
  | float x => (Number.float x).plainText
  | decimal d => (Number.decimal d).plainText
  | fraction numerator denominator => do
    let _ ← Binary64.ofFraction numerator denominator
    .error (.noAttribute "Fraction" "normalize")
  | v => .error (.notReal v.typeName)

@[simp] theorem toCell_toValue (c : CellValue) : c.toValue.toCell = .ok c := by
  rcases c with s | n
  · rfl
  · cases n <;> rfl

end Value

end FormatCode
