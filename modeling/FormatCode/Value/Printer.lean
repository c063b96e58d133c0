import FormatCode.Text.Quoted
import FormatCode.Value.Basic

/-!
# Writing values

The written form of a value names its kind where the form alone would not tell it, and shows the
members of sequences and the fields of nodes. Which characters are shown in text as they are is a
parameter.

## Main definitions

* `Value.writeWith` — the written form of a value.
* `Value.write` — the same, with the printable characters shown as they are.
-/

namespace FormatCode.Value

def commaSeparated (items : List (List Char)) : List Char := [',', ' '].intercalate items

/-- The written form of a complex number: the imaginary part alone if the real part is zero and not
negative. -/
def writeComplex (re im : Binary64) : List Char :=
  let imaginary := im.compactText
  if re = .zero false then imaginary ++ ['j']
  else
    let sign := if imaginary.head? = some '-' then [] else ['+']
    '(' :: re.compactText ++ sign ++ imaginary ++ ['j', ')']

/-- The written form of octets: those of printable ASCII characters as they are. -/
def writeBytes (octets : List Nat) : List Char :=
  'b' :: Quoted.encode (fun c => 32 ≤ c.toNat && c.toNat < 127) (octets.map Char.ofNat)

def writeAtom (printable : Char → Bool) : Value → Except Fault (List Char)
  | null => .ok "None".toList
  | bool b => .ok (if b then "True".toList else "False".toList)
  | int i => Number.writeInt i
  | float x => .ok x.text
  | decimal d => .ok ("Decimal('".toList ++ d.scientific ++ "')".toList)
  | fraction numerator denominator => do
    pure ("Fraction(".toList ++ (← Number.writeInt numerator) ++ ", ".toList ++
      (← Number.writeInt denominator) ++ ")".toList)
  | complex re im => .ok (writeComplex re im)
  | text s => .ok (Quoted.encode printable s.toList)
  | bytes octets => .ok (writeBytes octets)
  | mapping => .ok ['\x7b', '\x7d']
  | list _ | tuple _ | node .. => .ok []

/-- The members of a tuple between parentheses; a comma follows an only member. -/
def parenthesized : List (List Char) → List Char
  | [item] => '(' :: item ++ [',', ')']
  | items => '(' :: commaSeparated items ++ [')']

mutual

def writeWith (printable : Char → Bool) : Value → Except Fault (List Char)
  | list items => do pure ('[' :: commaSeparated (← writeMembers printable items) ++ [']'])
  | tuple items => do pure (parenthesized (← writeMembers printable items))
  | node kind fields => do
    let written ← writeFields printable kind.fieldNames fields
    pure (kind.name.toList ++ '(' :: commaSeparated written ++ [')'])
  | v => writeAtom printable v

def writeMembers (printable : Char → Bool) : List Value → Except Fault (List (List Char))
  | [] => .ok []
  | item :: items => do pure ((← writeWith printable item) :: (← writeMembers printable items))

def writeFields (printable : Char → Bool) :
    List String → List Value → Except Fault (List (List Char))
  | name :: names, field :: fields => do
    let written ← writeWith printable field
    pure ((name.toList ++ '=' :: written) :: (← writeFields printable names fields))
  | _, _ => .ok []

end

def write (v : Value) : Except Fault (List Char) := v.writeWith Unicode.isPrintable

end FormatCode.Value
