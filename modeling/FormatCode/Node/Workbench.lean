import FormatCode.Event
import FormatCode.Node.Assembly
import FormatCode.Node.Display
import FormatCode.Node.Store

/-!
# Working with nodes by name

A workbench binds names to nodes. Its steps make nodes, change, freeze and copy them, or ask what
they hold, whether they are equal, and what they show as formats made by hand. What is stored in a
node, or given for a copy, is new or is there already, under whatever names. A question changes
nothing; one about all that a node holds has no answer if the node is part of itself. A step that is
a fault leaves the workbench as it was, except that freezing a section stops at the first part that
cannot be frozen.

## Main definitions

* `Path` — a name, and the way from its node to a field or member.
* `Given` — what can be stored.
* `Question`, `Step`, `Answer` — what can be asked and done, and what comes of it.
* `Workbench.step`, `Workbench.run` — the outcome of a step, and of steps one after the other.
-/

namespace FormatCode

/-- An attribute of a node, or a member of a sequence; a negative position counts from the end. -/
inductive Key
  | property (name : String)
  | position (i : Int)
deriving DecidableEq, Repr

/-- The way from the node of a name to a slot. -/
structure Path where
  name : String
  keys : List Key
deriving DecidableEq, Repr

/-- What is given to be stored: a value, in nodes of its own, or the very thing at a path. -/
inductive Given
  | value (v : Value)
  | path (p : Path)
deriving Repr

instance : Coe Value Given := ⟨.value⟩

instance : Coe (List (String × Value)) (List (String × Given)) :=
  ⟨List.map fun (name, v) => (name, .value v)⟩

inductive Question
  | get (path : Path)
  | write (path : Path)
  /-- The fields of a node with their names. -/
  | fields (path : Path)
  | equal (a b : Path)
  | unequal (a b : Path)
  | isFrozen (path : Path)
  | isPlaceholder (path : Path)
  | pad (path : Path)
  /-- The parts of a section before and after the decimal point. -/
  | split (path : Path)
  | hasConditions (path : Path)
  | choose (path : Path) (v : Value)
  | display (path : Path) (v : Value)
deriving Repr

inductive Step
  /-- Binds a name to the frozen nodes of a format. -/
  | parse (name : String) (format : Value)
  /-- Binds a name to new nodes. -/
  | make (name : String) (v : Value)
  /-- Binds a name to a new list. -/
  | list (name : String) (members : List Given)
  /-- Binds a name to a new tuple. -/
  | tuple (name : String) (members : List Given)
  /-- Stores something in a node, in a field or under another name. -/
  | assign (path : Path) (name : String) (given : Given)
  | freeze (path : Path)
  /-- Binds a name to a copy of a node with some fields given. -/
  | copy (path : Path) (name : String) (given : List (String × Given))
  | ask (q : Question)
deriving Repr

inductive Answer
  | done
  | value (v : Value)
  | text (s : List Char)
  | fields (entries : List (String × Value))
  | truth (b : Bool)
  | equality (b : Bool)
  | split (whole : Value) (fraction : Option Value)
  | position (i : Option Nat)
  | shown (s : Shown)
deriving Repr

/-- The nodes, and the names bound to them, the last one first. -/
structure Workbench where
  store : Store := {}
  names : List (String × Slot) := []
deriving Repr

namespace Workbench

/-! ## Paths -/

def sequenceName : Value → String
  | .list _ => "list "
  | .tuple _ => "tuple "
  | .text _ => "string "
  | _ => ""

def member (w : Workbench) (slot : Slot) (i : Int) : Except Fault Slot :=
  match w.store.outline slot with
  | .mapping => .error (.unknownName (String.ofList (Numeral.signed i)))
  | v =>
    match w.store.iterate slot with
    | .error _ => .error (.notIndexable v.qualifiedName)
    | .ok items =>
      let position := if i < 0 then i + items.length else i
      if position < 0 then .error (.outOfRange (sequenceName v))
      else match items[position.toNat]? with
        | some item => .ok item
        | none => .error (.outOfRange (sequenceName v))

def child (w : Workbench) (slot : Slot) : Key → Except Fault Slot
  | .property name => w.store.property name slot
  | .position i => w.member slot i

def resolve (w : Workbench) (p : Path) : Except Fault Slot :=
  match w.names.lookup p.name with
  | some slot => p.keys.foldlM w.child slot
  | none => .error (.unknownName (quote p.name))

def view (w : Workbench) (p : Path) : Except Fault Value := do
  (w.store.view (← w.resolve p)).elim (.error (.undefined .endless)) .ok

/-- What the slot at a path holds, with nothing in the places of its members. -/
def outline (w : Workbench) (p : Path) : Except Fault Value := (w.resolve p).map w.store.outline

def equal (w : Workbench) (a b : Path) : Except Fault Bool := do
  w.store.equal (← w.resolve a) (← w.resolve b)

/-! ## Asking -/

def fieldsOf : Value → Except Fault (List (String × Value))
  | .node kind fields => .ok (kind.fieldNames.zip fields)
  | v => .error (.noAttribute v.qualifiedName "_asdict")

def padOf (v : Value) : Except Fault Answer := (v.property "pad").map .value

/-- The parts of a section before and after the decimal point. Only sections are split. -/
def splitOf : Value → Except Fault Answer
  | .node .formatSection fields => do
    let parts ← (Value.node .formatSection fields).property "parts"
    let (whole, fraction) ← Value.splitParts parts
    pure (.split whole fraction)
  | v => .error (.noAttribute v.qualifiedName "split_parts")

/-- Whether any section of a format has a condition. Only formats tell. -/
def conditionsOf : Value → Except Fault Bool
  | .node .format fields => do
    Value.anyCondition (← (← (Value.node .format fields).property "sections").iterate)
  | v => .error (.noAttribute v.qualifiedName "has_conditions")

def ask (w : Workbench) : Question → Except Fault Answer
  | .get p => (w.view p).map .value
  | .write p => do pure (.text (← (← w.view p).write))
  | .fields p => do pure (.fields (← fieldsOf (← w.view p)))
  | .equal a b => do pure (.equality (← w.equal a b))
  | .unequal a b => do pure (.truth !(← w.equal a b))
  | .isFrozen p => do pure (.truth (← w.store.isFrozen (← w.resolve p)))
  | .isPlaceholder p => do pure (.truth (← (← w.outline p).isPlaceholder))
  | .pad p => do padOf (← w.outline p)
  | .split p => do splitOf (← w.view p)
  | .hasConditions p => do pure (.truth (← conditionsOf (← w.view p)))
  | .choose p v => do pure (.position (← (← w.view p).choose v))
  | .display p v => do pure (.shown (← (← w.view p).display v))

/-! ## Doing -/

def bind (w : Workbench) (name : String) (slot : Slot) (store : Store) : Workbench :=
  ⟨store, (name, slot) :: w.names⟩

/-- The answer to a step that changes the workbench, unless it is a fault. -/
def finish (w : Workbench) (r : Except Fault Workbench) : Except Fault Answer × Workbench :=
  match r with
  | .ok after => (.ok .done, after)
  | .error e => (.error e, w)

def take (w : Workbench) (s : Store) : Given → Except Fault (Slot × Store)
  | .value v => .ok (s.insert v)
  | .path p => (w.resolve p).map fun slot => (slot, s)

def takeAll (w : Workbench) (s : Store) : List Given → Except Fault (List Slot × Store)
  | [] => .ok ([], s)
  | given :: rest => do
    let (slot, s) ← w.take s given
    let (slots, s) ← w.takeAll s rest
    pure (slot :: slots, s)

def gather (w : Workbench) (name : String) (cell : List Slot → Cell) (members : List Given) :
    Except Fault Workbench := do
  let (slots, store) ← w.takeAll w.store members
  let (slot, store) := store.push (cell slots)
  pure (w.bind name slot store)

def assign (w : Workbench) (p : Path) (name : String) (given : Given) :
    Except Fault Workbench := do
  let (content, store) ← w.take w.store given
  let store ← store.assign (← w.resolve p) name content
  pure { w with store }

def copy (w : Workbench) (p : Path) (name : String) (given : List (String × Given)) :
    Except Fault Workbench := do
  let original ← w.resolve p
  let (slots, store) ← w.takeAll w.store (given.map (·.2))
  let (slot, store) ← store.copyWith original ((given.map (·.1)).zip slots)
  pure (w.bind name slot store)

def freeze (w : Workbench) (p : Path) : Except Fault Answer × Workbench :=
  match w.resolve p with
  | .error e => (.error e, w)
  | .ok slot =>
    let (result, store) := w.store.freeze slot
    (result.map fun _ => .done, { w with store := store })

def step (w : Workbench) : Step → Except Fault Answer × Workbench
  | .parse name format =>
    w.finish do
      let f ← Format.parse (← format.toText)
      let (slot, store) ← w.store.insertFormat f
      pure (w.bind name slot store)
  | .make name v =>
    let (slot, store) := w.store.insert v
    (.ok .done, w.bind name slot store)
  | .list name members => w.finish (w.gather name .list members)
  | .tuple name members => w.finish (w.gather name .tuple members)
  | .assign p name given => w.finish (w.assign p name given)
  | .freeze p => w.freeze p
  | .copy p name given => w.finish (w.copy p name given)
  | .ask q => (w.ask q, w)

def run (w : Workbench) : List Step → List (Except Fault Answer × Workbench)
  | [] => []
  | s :: rest =>
    let (answer, w) := w.step s
    (answer, w) :: run w rest

end Workbench

end FormatCode
