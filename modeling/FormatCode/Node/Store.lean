import FormatCode.Format.Node
import FormatCode.Value.Order

/-!
# Nodes that can be changed

Nodes live in a store, where something can be stored in them until they are frozen. A field holds a
value, or refers to another node or to a sequence in the store, so that nodes share what they hold.
A node may even be part of itself, and then it is no value. Looking at a node gives the value with
all that it holds, if there is one. A sequence that two nodes share is equal to itself whatever its
members are; a value in a field of its own is compared.

What the nodes of a kind have in common is out of reach of what is stored: what they can do, and
the attributes that come with the kind. Storing something under such a name is not defined.

## Main definitions

* `Slot`, `Node`, `Cell`, `Store` — what a field holds, a node, a node or sequence, and all of them.
* `Store.insert` — new nodes for a value.
* `Store.view` — what a slot holds, with everything below it.
* `Store.equal` — whether two slots hold equal values.
* `Store.assign`, `Store.freeze`, `Store.copyWith` — changing, freezing and copying a node.
* `Store.insertFormat` — the frozen nodes of a format.
-/

namespace FormatCode

/-- What a field of a node or a member of a sequence is: a value that holds no others, or the
address of a node or sequence. -/
inductive Slot
  | plain (v : Value)
  | ref (address : Nat)
deriving Repr, Inhabited

/-- A node, with a slot for each field of its kind and for whatever else is stored in it by name,
the last one first. -/
structure Node where
  kind : NodeKind
  fields : List Slot
  others : List (String × Slot) := []
  frozen : Bool := false
deriving Repr

inductive Cell
  | node (n : Node)
  | list (items : List Slot)
  | tuple (items : List Slot)
deriving Repr

structure Store where
  cells : Array Cell := #[]
deriving Repr

namespace Slot

def address? : Slot → Option Nat
  | ref i => some i
  | plain _ => none

def isNull : Slot → Bool
  | plain v => v.isNull
  | ref _ => false

end Slot

/-! ## What kinds have in common -/

namespace NodeKind

/-- What the nodes of a kind can do, and what they are made of. -/
def ownNames : NodeKind → List String
  | formatSection => "split_parts" :: shared
  | format => "has_conditions" :: shared
  | _ => shared
where
  shared : List String :=
    ["_fields", "freeze", "_asdict", "_replace", "__class__", "__dict__", "__weakref__"]

/-- Whether a name stands for something that the nodes of a kind have in common. -/
def owns (kind : NodeKind) (name : String) : Bool :=
  (kind.constant? name).isSome || kind.ownNames.contains name

/-- The fault of making a copy of a node with fields of some names given. Each has to be a field,
and a kind without fields takes none. -/
def argumentFault? (kind : NodeKind) (names : List String) : Option Fault :=
  if names.contains "self" then some (.undefined (.repeated "Node._replace" "self"))
  else
    (names.find? fun name => !kind.fieldNames.contains name).map fun name =>
      .undefined (if kind.fieldNames.isEmpty then .arguments kind.name
        else .argument (kind.name ++ ".__init__") name)

end NodeKind

namespace Node

/-- The name under which it is stored whether a node is frozen. -/
def frozenMark : String := "_frozen"

def field? (n : Node) (name : String) : Option Slot := (n.kind.fieldNames.zip n.fields).lookup name

/-- What is stored in a node by name, apart from whether it is frozen. -/
def attribute? (n : Node) (name : String) : Option Slot := (n.field? name).or (n.others.lookup name)

/-- A node in which a slot is stored by name: as a field if there is one of the name, as the mark
of frozen nodes, which counts as true or false only, or beside the fields. -/
def assign (n : Node) (name : String) (slot : Slot) (countsAsTrue : Bool) : Node :=
  if (n.field? name).isSome then
    { n with fields := n.fields.set (n.kind.fieldNames.idxOf name) slot }
  else if name = frozenMark then { n with frozen := countsAsTrue }
  else { n with others := (name, slot) :: n.others }

def fieldsWith (n : Node) (given : List (String × Slot)) : List Slot :=
  (n.kind.fieldNames.zip n.fields).map fun (name, field) => (given.lookup name).getD field

end Node

namespace Cell

def items : Cell → List Slot
  | node n => n.fields
  | list items | tuple items => items

def value : Cell → List Value → Value
  | node n, values => .node n.kind values
  | list _, values => .list values
  | tuple _, values => .tuple values

end Cell

namespace Store

def cell? (s : Store) (slot : Slot) : Option Cell := do s.cells[← slot.address?]?

/-! ## Looking -/

/-- What a slot holds, with nothing in the places of its members. -/
def outline (s : Store) : Slot → Value
  | .plain v => v
  | .ref i => s.cells[i]?.elim .null fun cell => cell.value (cell.items.map fun _ => .null)

/-- What a slot holds, if no more than `depth` references lead on from it one after the other. -/
def viewTo (s : Store) : (depth : Nat) → Slot → Option Value
  | _, .plain v => some v
  | 0, .ref _ => none
  | depth + 1, .ref i => do
    let cell ← s.cells[i]?
    return cell.value (← cell.items.mapM (s.viewTo depth))

/-- What a slot holds, with everything below it. More references than there are cells lead back to
where they began. -/
def view (s : Store) (slot : Slot) : Option Value := s.viewTo s.cells.size slot

def node? (s : Store) (slot : Slot) : Option Node :=
  match s.cell? slot with
  | some (.node n) => some n
  | _ => none

def field? (s : Store) (name : String) (slot : Slot) : Option Slot :=
  (s.node? slot).bind (·.field? name)

def attribute? (s : Store) (name : String) (slot : Slot) : Option Slot :=
  (s.node? slot).bind (·.attribute? name)

def property (s : Store) (name : String) (slot : Slot) : Except Fault Slot :=
  match s.attribute? name slot with
  | some found => .ok found
  | none => ((s.outline slot).property name).map .plain

def iterate (s : Store) (slot : Slot) : Except Fault (List Slot) :=
  match s.cell? slot with
  | some (.list items) | some (.tuple items) => .ok items
  | _ => (s.outline slot).iterate.map fun items => items.map .plain

/-! ## Equality -/

/-- Whether the members of two sequences are equal in order, given when two slots are. One and the
same node or sequence is not looked into. -/
def equalMembers (equal : Slot → Slot → Except Fault Bool) :
    List Slot → List Slot → Except Fault Bool
  | [], [] => .ok true
  | .ref i :: xs, .ref j :: ys => do
    if ← (if i = j then pure true else equal (.ref i) (.ref j)) then equalMembers equal xs ys
    else pure false
  | x :: xs, y :: ys => do if ← equal x y then equalMembers equal xs ys else pure false
  | _, _ => .ok false

def equalFields (equal : Slot → Slot → Except Fault Bool) :
    List Slot → List Slot → Except Fault Bool
  | [], [] => .ok true
  | x :: xs, y :: ys => do if ← equal x y then equalFields equal xs ys else pure false
  | _, _ => .ok false

def equalTo (s : Store) : (depth : Nat) → Slot → Slot → Except Fault Bool
  | depth + 1, .ref i, .ref j =>
    match s.cells[i]?, s.cells[j]? with
    | some (.node m), some (.node n) =>
      if m.kind.comparesFields n.kind then equalFields (s.equalTo depth) m.fields n.fields
      else .ok false
    | some (.list xs), some (.list ys) =>
      if i = j then .ok true
      else if xs.length = ys.length then equalMembers (s.equalTo depth) xs ys
      else .ok false
    | some (.tuple xs), some (.tuple ys) =>
      if i = j then .ok true else equalMembers (s.equalTo depth) xs ys
    | _, _ => .ok false
  | 0, .ref _, .ref _ => .error (.undefined .endless)
  | _, .plain v, .plain w => v.equal w
  | _, _, _ => .ok false

/-- Whether two slots hold equal values. After as many references as there are pairs of cells, the
same two cells are compared again, and so on without end. -/
def equal (s : Store) (a b : Slot) : Except Fault Bool :=
  s.equalTo (s.cells.size * s.cells.size) a b

/-! ## New nodes -/

def push (s : Store) (cell : Cell) : Slot × Store := (.ref s.cells.size, ⟨s.cells.push cell⟩)

mutual

/-- New nodes for a value, none of them frozen. -/
def insert (s : Store) : Value → Slot × Store
  | .node kind fields =>
    let (slots, s) := insertAll s fields
    s.push (.node { kind, fields := slots })
  | .list items =>
    let (slots, s) := insertAll s items
    s.push (.list slots)
  | .tuple items =>
    let (slots, s) := insertAll s items
    s.push (.tuple slots)
  | v => (.plain v, s)

def insertAll (s : Store) : List Value → List Slot × Store
  | [] => ([], s)
  | v :: vs =>
    let (slot, s) := insert s v
    let (slots, s) := insertAll s vs
    (slot :: slots, s)

end

/-- A copy of a node, not frozen, with some fields given. It shares the other fields with the node,
and what is stored beside the fields is not copied. Only nodes are copied. -/
def copyWith (s : Store) (slot : Slot) (given : List (String × Slot)) :
    Except Fault (Slot × Store) :=
  match s.node? slot with
  | some n =>
    match n.kind.argumentFault? (given.map (·.1)) with
    | some e => .error e
    | none => .ok (s.push (.node { kind := n.kind, fields := n.fieldsWith given }))
  | none => .error (.noAttribute (s.outline slot).qualifiedName "_replace")

/-! ## Changing nodes -/

def put (s : Store) (i : Nat) (cell : Cell) : Store := ⟨s.cells.setIfInBounds i cell⟩

/-- Stores something in a node by name. The node must not be frozen, and the name must not stand for
what its kind has in common. Nothing is stored in what is no node. -/
def assign (s : Store) (slot : Slot) (name : String) (content : Slot) : Except Fault Store :=
  match slot.address?, s.node? slot with
  | some i, some n =>
    if n.frozen then .error (.readOnly n.kind.name)
    else if n.kind.owns name then .error (.undefined (.shadowing n.kind.name name))
    else .ok (s.put i (.node (n.assign name content (s.outline content).countsAsTrue)))
  | _, _ => .error (.noAttribute (s.outline slot).qualifiedName name)

def isFrozen (s : Store) (slot : Slot) : Except Fault Bool :=
  match s.node? slot with
  | some n => .ok n.frozen
  | none => .error (.noAttribute (s.outline slot).qualifiedName Node.frozenMark)

/-- What is frozen with a node: the condition and the parts of a section, and nothing else. -/
def companions (s : Store) (n : Node) : Except Fault (List Slot) :=
  match n.kind, n.field? "condition", n.field? "parts" with
  | .formatSection, some condition, some parts =>
    (s.iterate parts).map fun items => condition :: items
  | _, _, _ => .ok []

/-- Changes a store by each of some slots in turn, up to the first fault. What was changed before
the fault stays changed. -/
def eachInTurn (change : Store → Slot → Except Fault Unit × Store) (s : Store) :
    List Slot → Except Fault Unit × Store
  | [] => (.ok (), s)
  | slot :: rest =>
    match change s slot with
    | (.ok (), s) => eachInTurn change s rest
    | broken => broken

/-- Freezes a node, which has to be done after `depth` nodes within one another. A missing companion
is passed over; what is no node cannot be frozen. -/
def freezeTo : (depth : Nat) → Store → Slot → Except Fault Unit × Store
  | depth + 1, s, .ref i =>
    match s.node? (.ref i) with
    | some n =>
      match s.companions n with
      | .error e => (.error e, s)
      | .ok slots =>
        match eachInTurn (freezeTo depth) s (slots.filter fun slot => !slot.isNull) with
        | (.ok (), s) => (.ok (), s.put i (.node { n with frozen := true }))
        | broken => broken
    | none => (.error (.noAttribute (s.outline (.ref i)).qualifiedName "freeze"), s)
  | 0, s, .ref _ => (.error (.undefined .endless), s)
  | _, s, .plain v => (.error (.noAttribute v.qualifiedName "freeze"), s)

/-- Freezes a node, and what is frozen with it. More nodes within one another than there are cells
lead back to where they began. -/
def freeze (s : Store) (slot : Slot) : Except Fault Unit × Store :=
  freezeTo (s.cells.size + 1) s slot

/-! ## Nodes of a format -/

def frozen (s : Store) (slot : Slot) : Except Fault Store :=
  match s.freeze slot with
  | (.ok (), s) => .ok s
  | (.error e, _) => .error e

def insertSection (s : Store) (sec : Section) : Except Fault (Slot × Store) :=
  let (slot, s) := s.insert sec.toValue
  (s.frozen slot).map fun s => (slot, s)

def insertSections (s : Store) : List Section → Except Fault (List Slot × Store)
  | [] => .ok ([], s)
  | sec :: rest => do
    let (slot, s) ← s.insertSection sec
    let (slots, s) ← insertSections s rest
    pure (slot :: slots, s)

/-- New nodes for a format. Freezing a format freezes nothing else, so its sections are frozen as
they are made. -/
def insertFormat (s : Store) (f : Format) : Except Fault (Slot × Store) := do
  let (slots, s) ← s.insertSections f.sections
  let (sections, s) := s.push (.tuple slots)
  let (root, s) := s.push (.node { kind := .format, fields := [sections] })
  (s.frozen root).map fun s => (root, s)

end Store

end FormatCode
