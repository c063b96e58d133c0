import FormatCode.Value.Basic

/-!
# Comparing values

Values of any two kinds are equal or not. Real numbers are compared by value, whatever their kind,
and a truth value counts as one or zero; text, octets and sequences are compared member by member,
and nodes of one kind field by field. An order exists among real numbers, and within text, octets,
lists and tuples; any other is a fault.

## Main definitions

* `Value.operand?` — a value as a real number.
* `Value.equal` — whether two values are equal.
* `Value.ordered` — whether an order relation holds.
* `Value.compare` — whether a relation holds.
-/

namespace FormatCode.Value

def operand? : Value → Option Operand
  | bool b => some (.ofInt (if b then 1 else 0))
  | int i => some (.ofInt i)
  | float x => some (.ofFloat x)
  | decimal d => some (.ofDecimal d)
  | fraction numerator denominator => some (.ofFraction numerator denominator)
  | _ => none

/-- Whether a complex number equals a value: another complex number, or a real one if the imaginary
part is zero. -/
def equalComplex (re im : Binary64) (v : Value) : Except Fault Bool :=
  match v with
  | complex re' im' => do
    if ← (Operand.ofFloat re).compare .equal (.ofFloat re') then
      (Operand.ofFloat im).compare .equal (.ofFloat im')
    else pure false
  | v =>
    match v.operand? with
    | some b => do
      if ← (Operand.ofFloat im).compare .equal (.ofInt 0) then
        (Operand.ofFloat re).compare .equal b
      else pure false
    | none => .ok false

def equalAtoms (a b : Value) : Except Fault Bool :=
  match a, b with
  | null, null => .ok true
  | mapping, mapping => .ok true
  | text s, text t => .ok (s == t)
  | bytes s, bytes t => .ok (s == t)
  | complex re im, v => equalComplex re im v
  | v, complex re im => equalComplex re im v
  | a, b =>
    match a.operand?, b.operand? with
    | some x, some y => x.compare .equal y
    | _, _ => .ok false

mutual

def equal : Value → Value → Except Fault Bool
  | list xs, list ys => if xs.length = ys.length then equalMembers xs ys else .ok false
  | tuple xs, tuple ys => equalMembers xs ys
  | node k fs, node l gs => if k.comparesFields l then equalMembers fs gs else .ok false
  | a, b => equalAtoms a b

def equalMembers : List Value → List Value → Except Fault Bool
  | [], [] => .ok true
  | x :: xs, y :: ys => do if ← equal x y then equalMembers xs ys else pure false
  | _, _ => .ok false

end

def orderedAtoms (c : Comparison) (a b : Value) : Except Fault Bool :=
  match a, b with
  | text s, text t => .ok (c.holds (compare s t))
  | bytes s, bytes t => .ok (c.holds (compare s t))
  | a, b =>
    match a.operand?, b.operand? with
    | some x, some y => x.compare c y
    | _, _ => .error (.unordered c.symbol a.qualifiedName b.qualifiedName)

mutual

def ordered (c : Comparison) : Value → Value → Except Fault Bool
  | list xs, list ys => orderedMembers c xs ys
  | tuple xs, tuple ys => orderedMembers c xs ys
  | a, b => orderedAtoms c a b

/-- Whether an order relation holds between two sequences: the first members that differ decide, and
otherwise the lengths. -/
def orderedMembers (c : Comparison) : List Value → List Value → Except Fault Bool
  | [], [] => .ok (c.holds .eq)
  | [], _ :: _ => .ok (c.holds .lt)
  | _ :: _, [] => .ok (c.holds .gt)
  | x :: xs, y :: ys => do if ← equal x y then orderedMembers c xs ys else ordered c x y

end

def compare (c : Comparison) (a b : Value) : Except Fault Bool :=
  match c with
  | .equal => equal a b
  | .unequal => (equal a b).map (!·)
  | c => ordered c a b

end FormatCode.Value
