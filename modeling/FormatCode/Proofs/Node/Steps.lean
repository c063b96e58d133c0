import FormatCode.Node.Workbench
import FormatCode.Proofs.Node.Fields

/-!
# What steps do with nodes

What a step is given is held by new nodes, or is the very slot that a path leads to. It is stored in
a node that is not frozen, under a name that the kind of the node does not own, or in a copy. All
that was there before is as it was, but for the one thing that is stored in the one node.

## Main definitions

* `Workbench.Gives`, `Workbench.Has` — the slots that are what is given, and what can be given.
* `Workbench.IsAssigned` — what storing something in a node changes.
* `Workbench.IsCopy` — what a copy of a node is.

## Main statements

* `Workbench.takes_takeAll` — all that is given is held, and no cell changes.
* `Workbench.exists_step_assign`, `Workbench.step_assign_frozen` — what becomes of storing something
  in a node.
* `Workbench.exists_step_copy`, `Workbench.exists_step_copy_error` — what becomes of copying a node.
* `Workbench.marks_step_freeze`, `Workbench.exists_step_freeze` — what becomes of freezing a node.
-/

namespace FormatCode

namespace Workbench

variable {w : Workbench} {s t : Store} {path : Path} {slot : Slot} {n : Node} {name : String}

/-! ## What is given -/

/-- Whether a slot of a store is what is given: it holds the value, or is what the path leads to. -/
def Gives (w : Workbench) (s : Store) : Given → Slot → Prop
  | .value v, slot => s.view slot = some v
  | .path p, slot => w.resolve p = .ok slot

def Has (w : Workbench) : Given → Prop
  | .value _ => True
  | .path p => ∃ slot, w.resolve p = .ok slot

/-- Whether a store has the cells of another one, and slots that are what is given whatever becomes
of the cells before. -/
structure Takes (w : Workbench) (s t : Store) (given : List Given) (slots : List Slot) : Prop where
  isPartOf : s.IsPartOf t
  gives : ∀ u : Store,
    (∀ slot cell, s.cell? slot = none → t.cell? slot = some cell → u.cell? slot = some cell) →
      List.Forall₂ (w.Gives u) given slots

lemma takes_take {given : Given} (h : w.take s given = .ok (slot, t)) :
    w.Takes s t [given] [slot] := by
  cases given with
  | value v =>
    obtain ⟨rfl, rfl⟩ := Prod.mk.inj (Except.ok.inj h)
    have hinserts := s.inserts_insert v
    refine ⟨hinserts.isPartOf, fun u hu => .cons ?_ .nil⟩
    exact (List.forall₂_cons.mp (hinserts.holds u hu)).1.view_eq
  | path p =>
    obtain ⟨slot', hslot, heq⟩ := Except.map_eq_ok_iff.mp h
    obtain ⟨rfl, rfl⟩ := Prod.mk.inj heq
    exact ⟨fun _ _ => id, fun _ _ => .cons hslot .nil⟩

lemma Takes.cons {u : Store} {given : Given} {rest : List Given} {slots : List Slot}
    (h : w.Takes s t [given] [slot]) (h' : w.Takes t u rest slots) :
    w.Takes s u (given :: rest) (slot :: slots) := by
  refine ⟨h.isPartOf.trans h'.isPartOf, fun v hv => ?_⟩
  refine .cons (List.forall₂_cons.mp (h.gives v fun a cell hnone hcell => ?_)).1
    (h'.gives v fun a cell hnone hcell => hv a cell (h.isPartOf.cell?_eq_none hnone) hcell)
  exact hv a cell hnone (h'.isPartOf a cell hcell)

/-- What is taken has the names of what is given. -/
lemma Takes.map_fst_zip {given : List (String × Given)} {slots : List Slot}
    (h : w.Takes s t (given.map (·.2)) slots) :
    ((given.map (·.1)).zip slots).map (·.1) = given.map (·.1) :=
  map_fst_eq_of_forall₂ (forall₂_zip_names (h.gives t fun _ _ _ h => h).flip)

/-- What is taken for all that is given is what is given, and no cell changes. -/
theorem takes_takeAll {given : List Given} {slots : List Slot}
    (h : w.takeAll s given = .ok (slots, t)) : w.Takes s t given slots := by
  induction given generalizing s slots with
  | nil =>
    obtain ⟨rfl, rfl⟩ := Prod.mk.inj (Except.ok.inj h)
    exact ⟨fun _ _ => id, fun _ _ => .nil⟩
  | cons first rest ih =>
    obtain ⟨⟨slot, u⟩, hfirst, h⟩ := Except.bind_eq_ok_iff.mp h
    obtain ⟨⟨slots', u'⟩, hrest, h⟩ := Except.bind_eq_ok_iff.mp h
    obtain ⟨rfl, rfl⟩ := Prod.mk.inj (Except.ok.inj h)
    exact (takes_take hfirst).cons (ih hrest)

lemma exists_take {given : Given} (h : w.Has given) (s : Store) :
    ∃ slot t, w.take s given = .ok (slot, t) := by
  cases given with
  | value v => exact ⟨_, _, rfl⟩
  | path p =>
    obtain ⟨slot, hslot⟩ := h
    exact ⟨slot, s, Except.map_eq_ok_iff.mpr ⟨slot, hslot, rfl⟩⟩

lemma exists_takeAll {given : List Given} (h : ∀ g ∈ given, w.Has g) (s : Store) :
    ∃ slots t, w.takeAll s given = .ok (slots, t) := by
  induction given generalizing s with
  | nil => exact ⟨[], s, rfl⟩
  | cons first rest ih =>
    rw [List.forall_mem_cons] at h
    obtain ⟨slot, t, hfirst⟩ := exists_take h.1 s
    obtain ⟨slots, u, hrest⟩ := ih h.2 t
    exact ⟨slot :: slots, u, Except.bind_eq_ok_iff.mpr ⟨_, hfirst,
      Except.bind_eq_ok_iff.mpr ⟨_, hrest, rfl⟩⟩⟩

/-! ## Storing something in a node -/

/-- What storing something in a node changes: what is found in the node by the name, or whether the
node is frozen if that is what the name stands for. -/
structure IsAssigned (w : Workbench) (slot : Slot) (n : Node) (name : String) (given : Given)
    (t : Store) : Prop where
  kept : ∀ other cell, other ≠ slot → w.store.cell? other = some cell → t.cell? other = some cell
  exists_node : ∃ m, t.cell? slot = some (.node m) ∧ m.kind = n.kind ∧
    (name ≠ Node.frozenMark → m.frozen = n.frozen)
  field : (n.field? name).isSome → ∃ content, t.field? name slot = some content ∧
    w.Gives t given content
  stored : name ≠ Node.frozenMark → ∃ content, t.attribute? name slot = some content ∧
    w.Gives t given content
  marked : name = Node.frozenMark → ∃ content, w.Gives t given content ∧
    t.isFrozen slot = .ok (t.outline content).countsAsTrue
  otherFields : ∀ other, other ≠ name → t.field? other slot = n.field? other
  others : ∀ other, other ≠ name → t.attribute? other slot = n.attribute? other

/-- Something is stored in a node that is not frozen. -/
theorem exists_step_assign (hslot : w.resolve path = .ok slot)
    (hcell : w.store.cell? slot = some (.node n)) (hn : n.frozen = false)
    (hname : n.kind.owns name = false) {given : Given} (hgiven : w.Has given) :
    ∃ t, w.step (.assign path name given) = (.ok .done, ⟨t, w.names⟩) ∧
      w.IsAssigned slot n name given t := by
  obtain ⟨content, s, htake⟩ := exists_take hgiven w.store
  have htakes := takes_take htake
  obtain ⟨t, hassign, hnode, hsize, hkept⟩ :=
    Store.exists_assign (htakes.isPartOf _ _ hcell) hn hname content
  refine ⟨t, ?_, ?_⟩
  · simp only [step, Workbench.assign, htake, hslot, hassign, finish, Bind.bind, Except.bind, pure,
      Except.pure]
  -- The nodes of a value are new, so that the node is none of them.
  have hgives : w.Gives t given content :=
    (List.forall₂_cons.mp (htakes.gives t fun other cell hnone hother => by
      rw [hkept other, hother]
      rintro rfl
      rw [hcell] at hnone
      cases hnone)).1
  refine ⟨fun other cell hother h => ?_, ⟨_, hnode, n.kind_assign .., fun hname => ?_⟩,
    fun hfield => ⟨content, ?_, hgives⟩, fun hname => ⟨content, ?_, hgives⟩,
    fun hname => ⟨content, hgives, ?_⟩, fun other hother => ?_, fun other hother => ?_⟩
  · rw [hkept other hother]
    exact htakes.isPartOf other cell h
  · rw [Node.frozen_assign, if_neg hname]
  · rw [Store.field?_node hnode, n.field?_assign hfield]
  · rw [Store.attribute?_node hnode, n.attribute?_assign hname]
  · rw [Store.isFrozen, Store.node?_eq_some_iff.mpr hnode]
    dsimp only
    rw [Node.frozen_assign, if_pos hname, Store.outline_assign hassign]
  · rw [Store.field?_node hnode, n.field?_assign_of_ne hother]
  · rw [Store.attribute?_node hnode, n.attribute?_assign_of_ne hother]

/-- Nothing is stored in a frozen node. -/
theorem step_assign_frozen (hslot : w.resolve path = .ok slot)
    (hcell : w.store.cell? slot = some (.node n)) (hn : n.frozen = true) (name : String)
    {given : Given} (hgiven : w.Has given) :
    w.step (.assign path name given) = (.error (.readOnly n.kind.name), w) := by
  obtain ⟨content, s, htake⟩ := exists_take hgiven w.store
  have hassign := Store.assign_frozen ((takes_take htake).isPartOf _ _ hcell) hn name content
  simp only [step, Workbench.assign, htake, hslot, hassign, finish, Bind.bind, Except.bind]

/-! ## Copying a node -/

/-- What a copy of a node is: a new node of the same kind, not frozen, with what is given for its
fields and otherwise the fields of the node. All that was there before is as it was. -/
structure IsCopy (w : Workbench) (n : Node) (given : List (String × Given)) (t : Store)
    (copy : Slot) : Prop where
  isNew : w.store.cell? copy = none
  kept : w.store.IsPartOf t
  exists_node : ∃ m, t.cell? copy = some (.node m) ∧ m.kind = n.kind ∧ m.frozen = false ∧
    m.others = []
  replaced : ∀ name g, (n.field? name).isSome → given.lookup name = some g →
    ∃ content, t.field? name copy = some content ∧ w.Gives t g content
  shared : ∀ name, given.lookup name = none → t.field? name copy = n.field? name

/-- A node is copied with fields that it has. -/
theorem exists_step_copy (hslot : w.resolve path = .ok slot)
    (hcell : w.store.cell? slot = some (.node n)) (name : String) {given : List (String × Given)}
    (hnames : ∀ entry ∈ given, entry.1 ∈ n.kind.fieldNames)
    (hgiven : ∀ entry ∈ given, w.Has entry.2) :
    ∃ copy t, w.step (.copy path name given) = (.ok .done, w.bind name copy t) ∧
      w.IsCopy n given t copy := by
  obtain ⟨slots, s, htake⟩ :=
    exists_takeAll (w := w) (List.forall_mem_map.mpr hgiven) w.store
  have htakes := takes_takeAll htake
  obtain ⟨news, hnews⟩ : ∃ news, (given.map (·.1)).zip slots = news := ⟨_, rfl⟩
  have hnewNames : ∀ field ∈ news.map (·.1), field ∈ n.kind.fieldNames := by
    rw [← hnews, htakes.map_fst_zip]
    exact List.forall_mem_map.mpr hnames
  have hcopy := Store.copyWith_node (htakes.isPartOf _ _ hcell) hnewNames
  obtain ⟨hnone, hnode⟩ :=
    Store.cell?_push_new s (.node { kind := n.kind, fields := n.fieldsWith news })
  have hpart := Store.isPartOf_push s (.node { kind := n.kind, fields := n.fieldsWith news })
  generalize s.push (.node { kind := n.kind, fields := n.fieldsWith news }) = pushed at *
  obtain ⟨copy, t⟩ := pushed
  refine ⟨copy, t, ?_, htakes.isPartOf.cell?_eq_none hnone, htakes.isPartOf.trans hpart,
    ⟨_, hnode, rfl, rfl, rfl⟩, fun field g hfield hg => ?_, fun field hfield => ?_⟩
  · simp only [step, Workbench.copy, hslot, htake, hnews, hcopy, finish, Bind.bind, Except.bind,
      pure, Except.pure]
  all_goals
    have hgives := (htakes.gives t fun other cell _ h => hpart other cell h).flip
    have hrel := lookup_forall₂ (forall₂_zip_names hgives) field
    rw [hnews] at hrel
    rw [Store.field?_node hnode, n.field?_copy]
  · obtain ⟨old, hold⟩ := Option.isSome_iff_exists.mp hfield
    rw [hg] at hrel
    generalize hnew : news.lookup field = new at hrel ⊢
    cases hrel with
    | some hcontent => exact ⟨_, by rw [hold]; rfl, hcontent⟩
  · rw [hfield] at hrel
    generalize news.lookup field = new at hrel ⊢
    cases hrel
    simp

/-- A node is not copied with other fields given. -/
theorem exists_step_copy_error (hslot : w.resolve path = .ok slot)
    (hcell : w.store.cell? slot = some (.node n)) (name : String) {given : List (String × Given)}
    (hgiven : ∀ entry ∈ given, w.Has entry.2) {entry : String × Given} (hentry : entry ∈ given)
    (hname : entry.1 ∉ n.kind.fieldNames) :
    ∃ misuse, w.step (.copy path name given) = (.error (.undefined misuse), w) := by
  obtain ⟨slots, s, htake⟩ :=
    exists_takeAll (w := w) (List.forall_mem_map.mpr hgiven) w.store
  have htakes := takes_takeAll htake
  obtain ⟨misuse, hfault⟩ :=
    NodeKind.exists_argumentFault? (htakes.map_fst_zip ▸ List.mem_map_of_mem hentry) hname
  refine ⟨misuse, ?_⟩
  simp only [step, Workbench.copy, hslot, htake, Store.copyWith,
    Store.node?_eq_some_iff.mpr (htakes.isPartOf _ _ hcell), hfault, finish, Bind.bind, Except.bind]

/-! ## Freezing a node -/

/-- Freezing a node marks the node and what is frozen with it, and changes nothing else. -/
theorem marks_step_freeze (hslot : w.resolve path = .ok slot) {after : Workbench}
    (h : w.step (.freeze path) = (.ok .done, after)) :
    after.names = w.names ∧ w.store.Marks (w.store.FreezesWith slot) after.store := by
  simp only [step, freeze, hslot] at h
  cases hfreeze : w.store.freeze slot with
  | mk result t =>
    rw [hfreeze] at h
    cases result with
    | error e => cases h
    | ok =>
      obtain ⟨-, rfl⟩ := Prod.mk.inj h
      exact ⟨rfl, Store.marks_freeze hfreeze⟩

/-- A node is frozen if its companions are nodes that have none themselves. -/
theorem exists_step_freeze (hslot : w.resolve path = .ok slot)
    (hcell : w.store.cell? slot = some (.node n)) (hparts : w.store.HasParts n)
    (hlone : ∀ other, w.store.HasCompanion slot other → w.store.IsLone other) :
    ∃ after, w.step (.freeze path) = (.ok .done, after) := by
  obtain ⟨t, hfreeze⟩ := Store.exists_freeze hcell hparts hlone
  refine ⟨⟨t, w.names⟩, ?_⟩
  simp only [step, freeze, hslot, hfreeze]
  rfl

end Workbench

end FormatCode
