import FormatCode.Value.Printer

/-!
# Asking a value for what it holds

A value may be asked for its members, for an attribute, for whether it counts as true, or be looked
up in a table of texts, whatever its kind. Most kinds of value refuse most of these, each in its own
words.

## Main definitions

* `Value.iterate` — the members of a value.
* `Value.countsAsTrue` — whether a value counts as true.
* `Value.property` — the attribute of a given name.
* `Value.isPlaceholder` — the attribute that tells a place for a digit.
* `Value.lookUp` — what a value stands for in a table of texts.
-/

namespace FormatCode

def NodeKind.constant? (kind : NodeKind) : (name : String) → Option Value
  | "is_placeholder" => kind.isPlaceholder?.map .bool
  | "pad" => kind.pad?.map .text
  | _ => none

namespace Value

/-- The members of a value, one after the other: those of a sequence, the characters of text, octets
as numbers, and none of an empty mapping. -/
def iterate : Value → Except Fault (List Value)
  | list items | tuple items => .ok items
  | text s => .ok (s.toList.map fun c => text (String.ofList [c]))
  | bytes octets => .ok (octets.map fun (n : Nat) => int n)
  | mapping => .ok []
  | v => .error (.notIterable v.qualifiedName)

/-- Whether a value counts as true: it is no zero, and not empty or missing. -/
def countsAsTrue : Value → Bool
  | null | mapping => false
  | bool b => b
  | int i => i != 0
  | float (.finite _ bits) => bits.val != 0
  | decimal (.finite _ c _) => c != 0
  | fraction numerator _ => numerator != 0
  | complex re im => re != .zero false && re != .zero true || im != .zero false && im != .zero true
  | text s => !s.isEmpty
  | bytes octets => !octets.isEmpty
  | list items | tuple items => !items.isEmpty
  | float _ | decimal _ | node .. => true

def isNull : Value → Bool
  | null => true
  | _ => false

/-! ## Attributes -/

/-- The attribute of a given name, which only nodes have: a field, or what the kind adds to them. -/
def property (name : String) : Value → Except Fault Value
  | node kind fields =>
    match ((kind.fieldNames.zip fields).lookup name).or (kind.constant? name) with
    | some v => .ok v
    | none => .error (.noAttribute kind.name name)
  | v => .error (.noAttribute v.qualifiedName name)

def isPlaceholder (v : Value) : Except Fault Bool :=
  (v.property "is_placeholder").map countsAsTrue

/-! ## Tables -/

mutual

/-- The fault of looking a value up in a table, if there is one: sequences that can change, mappings
and nodes are not looked up, nor is a signaling NaN. -/
def keyFault? : Value → Option Fault
  | list _ => some (.notKey "list")
  | mapping => some (.notKey "dict")
  | node kind _ => some (.notKey kind.name)
  | decimal (.nan _ true _) => some .signalingKey
  | tuple items => firstKeyFault? items
  | _ => none

def firstKeyFault? : List Value → Option Fault
  | [] => none
  | item :: items => (keyFault? item).or (firstKeyFault? items)

end

def text? : Value → Option String
  | text s => some s
  | _ => none

/-- What a value stands for in a table of texts. The fault of a value that is not in the table tells
its written form. -/
def lookUp {α : Type} (table : String → Option α) (missing : String → Fault) (v : Value) :
    Except Fault α :=
  match keyFault? v with
  | some e => .error e
  | none =>
    match v.text?.bind table with
    | some a => .ok a
    | none => v.write.bind fun written => .error (missing (String.ofList written))

theorem lookUp_text {α : Type} (table : String → Option α) (missing : String → Fault) (s : String) :
    lookUp table missing (text s) = (table s).elim (.error (missing (quote s))) .ok := by
  have h : keyFault? (text s) = none := by simp [keyFault?]
  have hw : write (text s) = .ok (Quoted.encode Unicode.isPrintable s.toList) := by
    simp [write, writeWith, writeAtom]
  rw [lookUp, h, hw]
  cases ht : table s <;> simp [text?, ht, quote, Except.bind]

end Value

end FormatCode
