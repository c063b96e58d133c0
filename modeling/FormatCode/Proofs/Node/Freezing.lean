import FormatCode.Proofs.Node.Contents
import FormatCode.Proofs.Outcome

/-!
# Nodes that are frozen

Freezing changes no field of any node. It marks a node, and with a section its condition and its
parts, and nothing else. A cell that is frozen, or a sequence, does not change any more.

## Main definitions

* `Cell.IsSealed` — the cells that are not changed any more.
* `Store.Protects` — whether a store has the sealed cells of another one.
* `Store.GrowsTo` — whether nothing but freezing and new cells lead from a store to another one.
* `Store.FreezesTo` — whether nothing but freezing does.
* `Store.HasCompanion`, `Store.FreezesWith` — what is frozen with a section, and with any node.
* `Store.Marks` — whether some nodes are marked as frozen, and nothing else is changed.
* `Store.IsLone`, `Store.HasParts` — the nodes that are frozen without a fault.

## Main statements

* `Store.GrowsTo.holds`, `Store.GrowsTo.protects` — freezing and new cells change nothing that is
  held, and nothing that is sealed.
* `Store.FreezesTo.equalTo_eq` — freezing does not change which slots are equal.
* `Store.freezesTo_freeze` — freezing does nothing but freeze.
* `Store.marks_freeze` — which nodes are frozen.
* `Store.exists_freeze` — when there is no fault.
-/

namespace FormatCode

/-! ## Sealed cells -/

lemma Node.eq_of_frozen {n : Node} (h : n.frozen = true) : { n with frozen := true } = n := by
  cases n
  cases h
  rfl

namespace Cell

def IsSealed : Cell → Prop
  | node n => n.frozen = true
  | list _ | tuple _ => True

def sealed : Cell → Cell
  | node n => node { n with frozen := true }
  | list items => list items
  | tuple items => tuple items

def IsSequence : Cell → Prop
  | node _ => False
  | list _ | tuple _ => True

lemma isSealed_sealed (c : Cell) : c.sealed.IsSealed := by cases c <;> trivial

lemma sealed_eq {c : Cell} (h : c.IsSealed) : c.sealed = c := by
  cases c with
  | node n => exact congrArg node (Node.eq_of_frozen h)
  | _ => rfl

lemma items_sealed (c : Cell) : c.sealed.items = c.items := by cases c <;> rfl

lemma links_sealed (c : Cell) : c.sealed.links = c.links := by cases c <;> rfl

lemma value_sealed (c : Cell) : c.sealed.value = c.value := by cases c <;> rfl

lemma IsBare.sealed {c : Cell} (h : c.IsBare) : c.sealed.IsBare := by
  rw [IsBare, links_sealed, items_sealed]
  exact h

end Cell

namespace Store

variable {s t u : Store} {slot : Slot}

structure Protects (s t : Store) : Prop where
  size_le : s.cells.size ≤ t.cells.size
  cell?_eq : ∀ slot cell, s.cell? slot = some cell → cell.IsSealed → t.cell? slot = some cell

lemma Protects.refl (s : Store) : s.Protects s := ⟨Nat.le_refl _, fun _ _ h _ => h⟩

lemma Protects.trans (h : s.Protects t) (h' : t.Protects u) : s.Protects u :=
  ⟨Nat.le_trans h.size_le h'.size_le, fun slot cell hcell hsealed =>
    h'.cell?_eq slot cell (h.cell?_eq slot cell hcell hsealed) hsealed⟩

/-- What is held by sealed cells is not changed any more. -/
lemma Protects.holds (h : s.Protects t) {p : Cell → Prop} (hp : ∀ cell, p cell → cell.IsSealed)
    {v : Value} (hv : s.Holds p slot v) : t.Holds p slot v :=
  hv.mono fun slot cell hcell hcell' =>
    ⟨cell, h.cell?_eq slot cell hcell (hp cell hcell'), hcell', rfl, rfl⟩

/-! ## Freezing and new cells -/

/-- Whether a store has the cells of another one, each as it was or frozen since. -/
structure GrowsTo (s t : Store) : Prop where
  size_le : s.cells.size ≤ t.cells.size
  exists_cell : ∀ slot cell, s.cell? slot = some cell →
    t.cell? slot = some cell ∨ t.cell? slot = some cell.sealed

lemma GrowsTo.refl (s : Store) : s.GrowsTo s := ⟨Nat.le_refl _, fun _ _ => .inl⟩

lemma GrowsTo.trans (h : s.GrowsTo t) (h' : t.GrowsTo u) : s.GrowsTo u := by
  refine ⟨Nat.le_trans h.size_le h'.size_le, fun slot cell hcell => ?_⟩
  obtain ht | ht := h.exists_cell slot cell hcell
  · exact h'.exists_cell slot cell ht
  · have hu := h'.exists_cell slot _ ht
    rw [Cell.sealed_eq cell.isSealed_sealed, or_self] at hu
    exact .inr hu

/-- A cell is as it was, or is a node that is frozen now. -/
lemma GrowsTo.cell?_eq_or (h : s.GrowsTo t) {cell : Cell} (hcell : s.cell? slot = some cell) :
    t.cell? slot = s.cell? slot ∨ ∃ n, s.cell? slot = some (.node n) ∧
      t.cell? slot = some (.node { n with frozen := true }) := by
  rw [hcell]
  obtain ht | ht := h.exists_cell slot cell hcell
  · exact .inl ht
  · cases cell with
    | node n => exact .inr ⟨n, rfl, ht⟩
    | _ => exact .inl ht

lemma IsPartOf.growsTo (h : s.IsPartOf t) : s.GrowsTo t :=
  ⟨h.size_le, fun slot cell hcell => .inl (h slot cell hcell)⟩

/-- What is sealed is not changed by freezing and new cells. -/
lemma GrowsTo.protects (h : s.GrowsTo t) : s.Protects t := by
  refine ⟨h.size_le, fun slot cell hcell hsealed => ?_⟩
  have ht := h.exists_cell slot cell hcell
  rwa [Cell.sealed_eq hsealed, or_self] at ht

lemma IsPartOf.protects (h : s.IsPartOf t) : s.Protects t := h.growsTo.protects

/-- What is held is not changed by freezing and new cells. -/
lemma GrowsTo.holds (h : s.GrowsTo t) {p : Cell → Prop} (hp : ∀ cell, p cell → p cell.sealed)
    {v : Value} (hv : s.Holds p slot v) : t.Holds p slot v := by
  refine hv.mono fun slot cell hcell hcell' => ?_
  obtain ht | ht := h.exists_cell slot cell hcell
  · exact ⟨cell, ht, hcell', rfl, rfl⟩
  · exact ⟨cell.sealed, ht, hp cell hcell', cell.items_sealed, cell.value_sealed⟩

/-! ## Freezing and nothing else -/

/-- Whether nothing but freezing leads from a store to another one: each cell is as it was, or as it
was but frozen. -/
structure FreezesTo (s t : Store) : Prop where
  size_eq : t.cells.size = s.cells.size
  cell?_eq : ∀ slot, t.cell? slot = s.cell? slot ∨ t.cell? slot = (s.cell? slot).map Cell.sealed

lemma FreezesTo.refl (s : Store) : s.FreezesTo s := ⟨rfl, fun _ => .inl rfl⟩

lemma FreezesTo.trans (h : s.FreezesTo t) (h' : t.FreezesTo u) : s.FreezesTo u := by
  refine ⟨h'.size_eq.trans h.size_eq, fun slot => ?_⟩
  have htwice : ((s.cell? slot).map Cell.sealed).map Cell.sealed =
      (s.cell? slot).map Cell.sealed := by
    rw [Option.map_map]
    congr 1
    funext c
    exact Cell.sealed_eq c.isSealed_sealed
  obtain heq | heq := h.cell?_eq slot <;> obtain heq' | heq' := h'.cell?_eq slot <;>
    simp [heq, heq', htwice]

lemma FreezesTo.exists_cell (h : s.FreezesTo t) {cell : Cell} (hcell : s.cell? slot = some cell) :
    t.cell? slot = some cell ∨ t.cell? slot = some cell.sealed := by
  have heq := h.cell?_eq slot
  rwa [hcell] at heq

lemma FreezesTo.growsTo (h : s.FreezesTo t) : s.GrowsTo t :=
  ⟨Nat.le_of_eq h.size_eq.symm, fun _ _ => h.exists_cell⟩

lemma FreezesTo.protects (h : s.FreezesTo t) : s.Protects t := h.growsTo.protects

lemma FreezesTo.cell?_eq_or (h : s.FreezesTo t) (slot : Slot) :
    t.cell? slot = s.cell? slot ∨ ∃ n, s.cell? slot = some (.node n) ∧
      t.cell? slot = some (.node { n with frozen := true }) := by
  cases hcell : s.cell? slot with
  | none =>
    have heq := h.cell?_eq slot
    rw [hcell, Option.map_none, or_self] at heq
    exact .inl heq
  | some cell =>
    have hor := h.growsTo.cell?_eq_or hcell
    rwa [hcell] at hor

/-- But for the marks of frozen nodes, all cells are as they were. -/
lemma FreezesTo.map_sealed_eq (h : s.FreezesTo t) (slot : Slot) :
    (t.cell? slot).map Cell.sealed = (s.cell? slot).map Cell.sealed := by
  obtain heq | ⟨n, hs, ht⟩ := h.cell?_eq_or slot
  · rw [heq]
  · rw [hs, ht]
    rfl

lemma exists_node_of_sealed {o : Option Cell} {n : Node}
    (h : o.map Cell.sealed = some (.node { n with frozen := true })) :
    ∃ b, o = some (.node { n with frozen := b }) := by
  obtain ⟨cell, rfl, hcell⟩ := Option.map_eq_some_iff.mp h
  cases cell with
  | node m =>
    obtain ⟨kind, fields, others, frozen⟩ := m
    obtain ⟨rfl, rfl, rfl, -⟩ := Node.mk.inj (Cell.node.inj hcell)
    exact ⟨frozen, rfl⟩
  | _ => cases hcell

lemma cell?_eq_of_sealed {o : Option Cell} {cell : Cell} (hcell : cell.IsSequence)
    (h : o.map Cell.sealed = some cell.sealed) : o = some cell := by
  obtain ⟨cell', rfl, h⟩ := Option.map_eq_some_iff.mp h
  cases cell <;> cases cell' <;> cases hcell <;> first | cases h; rfl | cases h

lemma FreezesTo.exists_node (h : s.FreezesTo t) {n : Node}
    (hcell : s.cell? slot = some (.node n)) :
    ∃ b, t.cell? slot = some (.node { n with frozen := b }) :=
  exists_node_of_sealed ((h.map_sealed_eq slot).trans (congrArg _ hcell))

/-- Whether slots are equal is not changed by freezing. -/
theorem FreezesTo.equalTo_eq (h : s.FreezesTo t) (depth : Nat) :
    t.equalTo depth = s.equalTo depth := by
  induction depth with
  | zero =>
    funext a b
    cases a <;> cases b <;> rfl
  | succ depth ih =>
    funext a b
    cases a with
    | plain v => cases b <;> rfl
    | ref i =>
      cases b with
      | plain v => rfl
      | ref j =>
        have hi := h.cell?_eq_or (.ref i)
        have hj := h.cell?_eq_or (.ref j)
        simp only [cell?_ref] at hi hj
        rw [equalTo, equalTo, ih]
        obtain hi | ⟨n, hs, ht⟩ := hi
        · rw [hi]
          obtain hj | ⟨n, hs, ht⟩ := hj
          · rw [hj]
          · rw [hs, ht]
            rcases s.cells[i]? with _ | _ | _ | _ <;> rfl
        · rw [hs, ht]
          obtain hj | ⟨m, hs', ht'⟩ := hj
          · rw [hj]
            rcases s.cells[j]? with _ | _ | _ | _ <;> rfl
          · rw [hs', ht']

lemma FreezesTo.viewTo_eq (h : s.FreezesTo t) (depth : Nat) : t.viewTo depth = s.viewTo depth := by
  induction depth with
  | zero =>
    funext slot
    cases slot <;> rfl
  | succ depth ih =>
    funext slot
    cases slot with
    | plain v => rfl
    | ref i =>
      rw [viewTo, viewTo, ih, ← cell?_ref, ← cell?_ref]
      obtain heq | ⟨n, hs, ht⟩ := h.cell?_eq_or (.ref i)
      · rw [heq]
      · rw [hs, ht]
        rfl

/-- What is looked at is not changed by freezing. -/
lemma FreezesTo.view_eq (h : s.FreezesTo t) : t.view = s.view := by
  funext slot
  rw [view, view, h.size_eq, h.viewTo_eq]

lemma FreezesTo.outline_eq (h : s.FreezesTo t) : t.outline = s.outline := by
  funext slot
  cases slot with
  | plain v => rfl
  | ref i =>
    rw [outline, outline, ← cell?_ref, ← cell?_ref]
    obtain heq | ⟨n, hs, ht⟩ := h.cell?_eq_or (.ref i)
    · rw [heq]
    · rw [hs, ht]
      rfl

lemma FreezesTo.equal_eq (h : s.FreezesTo t) : t.equal = s.equal := by
  funext a b
  rw [equal, equal, h.size_eq, h.equalTo_eq]

lemma cell?_put_self {cell : Cell} {i : Nat} (h : s.cell? (.ref i) = some cell) (cell' : Cell) :
    (s.put i cell').cell? (.ref i) = some cell' := by
  obtain ⟨hi, -⟩ := Array.getElem?_eq_some_iff.mp h
  exact Array.getElem?_setIfInBounds_self_of_lt hi

/-- A cell that is put at an address is the only one that changes. -/
lemma cell?_put_of_ne {i : Nat} (h : slot ≠ .ref i) (cell : Cell) :
    (s.put i cell).cell? slot = s.cell? slot := by
  cases slot with
  | plain v => rfl
  | ref j =>
    have hij : i ≠ j := fun hij => h (congrArg Slot.ref hij.symm)
    exact Array.getElem?_setIfInBounds_ne hij

lemma freezesTo_put {i : Nat} {n : Node} (h : s.cell? (.ref i) = some (.node n)) :
    s.FreezesTo (s.put i (.node { n with frozen := true })) := by
  refine ⟨Array.size_setIfInBounds, fun slot => ?_⟩
  by_cases hslot : slot = .ref i
  · subst hslot
    rw [cell?_put_self h, h]
    exact .inr rfl
  · exact .inl (cell?_put_of_ne hslot _)

/-- Where a change does nothing but freeze, changing slots in turn does not either. -/
lemma freezesTo_eachInTurn {change : Store → Slot → Except Fault Unit × Store}
    (h : ∀ (s : Store) slot, s.FreezesTo (change s slot).2) (s : Store) (slots : List Slot) :
    s.FreezesTo (eachInTurn change s slots).2 := by
  induction slots generalizing s with
  | nil => exact .refl s
  | cons slot rest ih =>
    have hfirst := h s slot
    rw [eachInTurn]
    split
    · next t heq =>
      rw [heq] at hfirst
      exact hfirst.trans (ih t)
    · exact hfirst

lemma freezesTo_freezeTo (depth : Nat) (s : Store) (slot : Slot) :
    s.FreezesTo (freezeTo depth s slot).2 := by
  induction depth generalizing s slot with
  | zero => cases slot <;> exact .refl s
  | succ depth ih =>
    cases slot with
    | plain v => exact .refl s
    | ref i =>
      rw [freezeTo]
      split
      · next n hnode =>
        split
        · exact .refl s
        · next slots hslots =>
          have hcompanions := freezesTo_eachInTurn (fun s slot => ih s slot) s
            (slots.filter fun slot => !slot.isNull)
          split
          · next t heq =>
            -- The node that is put back is the one from before the companions were frozen, which
            -- has left it as it was.
            rw [heq] at hcompanions
            obtain hnode' | hnode' := hcompanions.exists_cell (node?_eq_some_iff.mp hnode)
            · exact hcompanions.trans (freezesTo_put hnode')
            · exact hcompanions.trans (freezesTo_put (n := { n with frozen := true }) hnode')
          · exact hcompanions
      · exact .refl s

/-- Freezing a node does nothing but freeze. -/
theorem freezesTo_freeze (s : Store) (slot : Slot) : s.FreezesTo (s.freeze slot).2 :=
  freezesTo_freezeTo _ s slot

lemma frozen_eq_ok_iff : s.frozen slot = .ok t ↔ s.freeze slot = (.ok (), t) := by
  rw [frozen]
  split
  · next u heq => simp [heq]
  · next e u heq => simp [heq]

/-! ## What is frozen -/

/-- Whether a slot is frozen with a section: it is the condition, unless this is missing, or one of
the parts. -/
def HasCompanion (s : Store) (slot other : Slot) : Prop :=
  other.isNull = false ∧ ∃ n condition parts, s.cell? slot = some (.node n) ∧
    n.kind = .formatSection ∧ n.field? "condition" = some condition ∧
    n.field? "parts" = some parts ∧
    (other = condition ∨ ∃ cell, s.cell? parts = some cell ∧ cell.IsSequence ∧ other ∈ cell.items)

lemma mem_links_of_field? {n : Node} {name : String} {field : Slot}
    (h : n.field? name = some field) : field ∈ (Cell.node n).links := by
  exact List.mem_append_left _ (List.of_mem_zip (mem_of_lookup_eq_some h)).2

lemma HasCompanion.reaches {other : Slot} (h : s.HasCompanion slot other) :
    s.Reaches slot other := by
  obtain ⟨-, n, condition, parts, hcell, -, hcondition, hparts, rfl | ⟨cell, hcell', -, hmem⟩⟩ := h
  · exact .single ⟨_, hcell, mem_links_of_field? hcondition⟩
  · exact .tail (.single ⟨_, hcell, mem_links_of_field? hparts⟩)
      ⟨cell, hcell', cell.items_subset_links hmem⟩

/-- Whether a slot is frozen when another one is: the slot itself, its companions, theirs, and so
on. -/
def FreezesWith (s : Store) : Slot → Slot → Prop := Relation.ReflTransGen s.HasCompanion

lemma FreezesWith.reaches {other : Slot} (h : s.FreezesWith slot other) : s.Reaches slot other := by
  induction h with
  | refl => exact .refl
  | tail _ hcompanion ih => exact ih.trans hcompanion.reaches

/-- Whether some nodes of a store are marked as frozen, and nothing else is changed. -/
structure Marks (s : Store) (p : Slot → Prop) (t : Store) : Prop where
  exists_node : ∀ slot, p slot → ∃ n, s.cell? slot = some (.node n) ∧
    t.cell? slot = some (.node { n with frozen := true })
  kept : ∀ slot, ¬p slot → t.cell? slot = s.cell? slot

section marks

variable {p q : Slot → Prop}

lemma Marks.refl (s : Store) : s.Marks (fun _ => False) s := ⟨nofun, fun _ _ => rfl⟩

lemma Marks.congr (h : s.Marks p t) (hiff : ∀ slot, q slot ↔ p slot) : s.Marks q t :=
  ⟨fun slot hslot => h.exists_node slot ((hiff slot).mp hslot),
    fun slot hslot => h.kept slot fun hp => hslot ((hiff slot).mpr hp)⟩

lemma Marks.trans (h : s.Marks p t) (h' : t.Marks q u) :
    s.Marks (fun slot => p slot ∨ q slot) u := by
  refine ⟨fun slot hslot => ?_, fun slot hslot => ?_⟩
  · by_cases hp : p slot
    · obtain ⟨n, hs, ht⟩ := h.exists_node slot hp
      refine ⟨n, hs, ?_⟩
      by_cases hq : q slot
      · obtain ⟨m, ht', hu⟩ := h'.exists_node slot hq
        obtain rfl := Cell.node.inj (Option.some.inj (ht.symm.trans ht'))
        exact hu
      · rw [h'.kept slot hq, ht]
    · obtain ⟨n, ht, hu⟩ := h'.exists_node slot (hslot.resolve_left hp)
      exact ⟨n, (h.kept slot hp).symm.trans ht, hu⟩
  · rw [not_or] at hslot
    rw [h'.kept slot hslot.2, h.kept slot hslot.1]

lemma marks_put {i : Nat} {n : Node} (h : s.cell? (.ref i) = some (.node n)) :
    s.Marks (fun slot => slot = .ref i) (s.put i (.node { n with frozen := true })) :=
  ⟨fun _ hslot => ⟨n, hslot ▸ h, hslot ▸ cell?_put_self h _⟩,
    fun _ hslot => cell?_put_of_ne hslot _⟩

end marks

lemma FreezesTo.hasCompanion {other : Slot} (h : s.FreezesTo t) :
    t.HasCompanion slot other ↔ s.HasCompanion slot other := by
  -- Companions are found in cells by what is not changed when these are frozen.
  have hkept : ∀ s t : Store,
      (∀ slot, (t.cell? slot).map Cell.sealed = (s.cell? slot).map Cell.sealed) →
        s.HasCompanion slot other → t.HasCompanion slot other := by
    rintro s t h ⟨hnull, n, condition, parts, hcell, hkind, hcondition, hparts, hother⟩
    obtain ⟨b, hnode⟩ := exists_node_of_sealed ((h slot).trans (congrArg _ hcell))
    refine ⟨hnull, _, condition, parts, hnode, hkind, hcondition, hparts, hother.imp id ?_⟩
    rintro ⟨cell, hcell, hsequence, hmem⟩
    exact ⟨cell, cell?_eq_of_sealed hsequence ((h parts).trans (congrArg _ hcell)), hsequence, hmem⟩
  exact ⟨hkept t s fun slot => (h.map_sealed_eq slot).symm, hkept s t h.map_sealed_eq⟩

lemma FreezesTo.freezesWith (h : s.FreezesTo t) : t.FreezesWith = s.FreezesWith := by
  have heq : t.HasCompanion = s.HasCompanion := by
    funext slot other
    exact propext h.hasCompanion
  rw [FreezesWith, FreezesWith, heq]

lemma iterate_sequence {cell : Cell} (h : s.cell? slot = some cell) (hcell : cell.IsSequence) :
    s.iterate slot = .ok cell.items := by
  rw [iterate, h]
  cases cell with
  | node n => exact hcell.elim
  | _ => rfl

/-- The members of what is no sequence are no nodes. -/
lemma exists_sequence_of_iterate {items : List Slot} (h : s.iterate slot = .ok items) {i : Nat}
    (hmem : .ref i ∈ items) : ∃ cell, s.cell? slot = some cell ∧ cell.IsSequence ∧
      cell.items = items := by
  rw [iterate] at h
  split at h
  · next items' hcell => exact ⟨_, hcell, trivial, Except.ok.inj h⟩
  · next items' hcell => exact ⟨_, hcell, trivial, Except.ok.inj h⟩
  · obtain ⟨values, -, rfl⟩ := Except.map_eq_ok_iff.mp h
    obtain ⟨v, -, hv⟩ := List.mem_map.mp hmem
    cases hv

/-- The companions of a section are found by its fields. -/
lemma companions_section {n : Node} (hkind : n.kind = .formatSection) {condition parts : Slot}
    (hcondition : n.field? "condition" = some condition) (hparts : n.field? "parts" = some parts) :
    s.companions n = (s.iterate parts).map fun items => condition :: items := by
  rw [companions, hkind, hcondition, hparts]

lemma companions_eq_nil {n : Node} {slots : List Slot} (h : s.companions n = .ok slots) :
    slots = [] ∨ n.kind = .formatSection ∧ ∃ condition parts,
      n.field? "condition" = some condition ∧ n.field? "parts" = some parts := by
  rw [companions] at h
  split at h
  · next condition parts hkind hcondition hparts =>
    exact .inr ⟨hkind, condition, parts, hcondition, hparts⟩
  · exact .inl (Except.ok.inj h).symm

lemma mem_companions {n : Node} (h : s.cell? slot = some (.node n)) {slots : List Slot}
    (hslots : s.companions n = .ok slots) {other : Slot} (hother : s.HasCompanion slot other) :
    other ∈ slots.filter fun slot => !slot.isNull := by
  obtain ⟨hnull, m, condition, parts, hcell, hkind, hcondition, hparts, hother⟩ := hother
  obtain rfl := Cell.node.inj (Option.some.inj (h.symm.trans hcell))
  rw [companions_section hkind hcondition hparts] at hslots
  obtain ⟨items, hitems, rfl⟩ := Except.map_eq_ok_iff.mp hslots
  rw [List.mem_filter, hnull]
  refine ⟨?_, rfl⟩
  obtain rfl | ⟨cell, hcell, hsequence, hmem⟩ := hother
  · exact List.mem_cons_self ..
  · rw [iterate_sequence hcell hsequence] at hitems
    obtain rfl := Except.ok.inj hitems
    exact List.mem_cons_of_mem _ hmem

lemma hasCompanion_of_mem {n : Node} (h : s.cell? slot = some (.node n)) {slots : List Slot}
    (hslots : s.companions n = .ok slots) {i : Nat} (hmem : .ref i ∈ slots) :
    s.HasCompanion slot (.ref i) := by
  obtain rfl | ⟨hkind, condition, parts, hcondition, hparts⟩ := companions_eq_nil hslots
  · cases hmem
  rw [companions_section hkind hcondition hparts] at hslots
  obtain ⟨items, hitems, rfl⟩ := Except.map_eq_ok_iff.mp hslots
  refine ⟨rfl, n, condition, parts, h, hkind, hcondition, hparts, (List.mem_cons.mp hmem).imp id ?_⟩
  intro hmem
  obtain ⟨cell, hcell, hsequence, rfl⟩ := exists_sequence_of_iterate hitems hmem
  exact ⟨cell, hcell, hsequence, hmem⟩

/-- Changing slots in turn marks what changing each of them marks. -/
lemma marks_eachInTurn {change : Store → Slot → Except Fault Unit × Store}
    (hfreezes : ∀ (s : Store) slot, s.FreezesTo (change s slot).2)
    (hmarks : ∀ (s t : Store) slot, change s slot = (.ok (), t) → s.Marks (s.FreezesWith slot) t)
    {slots : List Slot} (h : eachInTurn change s slots = (.ok (), t)) :
    s.Marks (fun other => ∃ slot ∈ slots, s.FreezesWith slot other) t := by
  induction slots generalizing s with
  | nil =>
    obtain ⟨-, rfl⟩ := Prod.mk.inj h
    exact (Marks.refl s).congr fun slot => by simp
  | cons slot rest ih =>
    rw [eachInTurn] at h
    split at h
    · next u heq =>
      have hfirst := hfreezes s slot
      rw [heq] at hfirst
      refine ((hmarks s u slot heq).trans (ih h)).congr fun other => ?_
      rw [hfirst.freezesWith, List.exists_mem_cons_iff]
    · next hbroken =>
      rw [h] at hbroken
      exact absurd rfl (hbroken t)

lemma marks_freezeTo (depth : Nat) (h : freezeTo depth s slot = (.ok (), t)) :
    s.Marks (s.FreezesWith slot) t := by
  induction depth generalizing s slot t with
  | zero => cases slot <;> cases h
  | succ depth ih =>
    cases slot with
    | plain v => cases h
    | ref i =>
      rw [freezeTo] at h
      split at h
      · next n hnode =>
        rw [node?_eq_some_iff] at hnode
        split at h
        · cases h
        · next slots hslots =>
          split at h
          · next u heq =>
            obtain ⟨-, rfl⟩ := Prod.mk.inj h
            have hturn := marks_eachInTurn (freezesTo_freezeTo depth) (fun s t slot => ih) heq
            have hfreezes := freezesTo_eachInTurn (freezesTo_freezeTo depth) s
              (slots.filter fun slot => !slot.isNull)
            rw [heq] at hfreezes
            obtain ⟨b, hnode'⟩ := hfreezes.exists_node hnode
            refine (hturn.trans (marks_put hnode')).congr fun other => ?_
            -- All companions are nodes, since freezing them is no fault.
            have hcompanion : ∀ c, s.HasCompanion (.ref i) c ↔
                c ∈ slots.filter fun slot => !slot.isNull := by
              refine fun c => ⟨mem_companions hnode hslots, fun hc => ?_⟩
              obtain ⟨m, hm, -⟩ := hturn.exists_node c ⟨c, hc, .refl⟩
              obtain ⟨j, rfl⟩ := exists_ref hm
              exact hasCompanion_of_mem hnode hslots (List.mem_filter.mp hc).1
            rw [FreezesWith, Relation.ReflTransGen.cases_head_iff, or_comm, eq_comm]
            simp only [hcompanion]
          · next hbroken =>
            rw [h] at hbroken
            exact absurd rfl (hbroken t)
      · cases h

/-- Freezing a node marks the node and what is frozen with it, and nothing else. -/
theorem marks_freeze (h : s.freeze slot = (.ok (), t)) : s.Marks (s.FreezesWith slot) t :=
  marks_freezeTo _ h

/-! ## What can be frozen -/

def IsLone (s : Store) (slot : Slot) : Prop :=
  ∃ n, s.cell? slot = some (.node n) ∧ n.kind ≠ .formatSection

lemma FreezesTo.isLone (h : s.FreezesTo t) (hslot : s.IsLone slot) : t.IsLone slot := by
  obtain ⟨n, hcell, hkind⟩ := hslot
  obtain ⟨b, hcell'⟩ := h.exists_node hcell
  exact ⟨_, hcell', hkind⟩

/-- A node with which nothing else is frozen is frozen alone. -/
lemma freezeTo_node {n : Node} (h : n.kind ≠ .formatSection) {i : Nat}
    (hcell : s.cell? (.ref i) = some (.node n)) (depth : Nat) :
    freezeTo (depth + 1) s (.ref i) = (.ok (), s.put i (.node { n with frozen := true })) := by
  have hcompanions : s.companions n = .ok [] := by
    unfold companions
    split
    · next hkind _ _ => exact absurd hkind h
    · rfl
  rw [freezeTo, node?_eq_some_iff.mpr hcell]
  dsimp only
  rw [hcompanions]
  rfl

/-- Nodes with which nothing else is frozen are frozen in turn. -/
lemma exists_eachInTurn {slots : List Slot} (h : ∀ slot ∈ slots, s.IsLone slot) (depth : Nat) :
    ∃ t, eachInTurn (freezeTo (depth + 1)) s slots = (.ok (), t) := by
  induction slots generalizing s with
  | nil => exact ⟨s, rfl⟩
  | cons slot rest ih =>
    rw [List.forall_mem_cons] at h
    obtain ⟨t, hfirst⟩ : ∃ t, freezeTo (depth + 1) s slot = (.ok (), t) := by
      obtain ⟨n, hcell, hkind⟩ := h.1
      obtain ⟨i, rfl⟩ := exists_ref hcell
      exact ⟨_, freezeTo_node hkind hcell depth⟩
    have hfreezes := freezesTo_freezeTo (depth + 1) s slot
    rw [hfirst] at hfreezes
    rw [eachInTurn, hfirst]
    exact ih fun slot hslot => hfreezes.isLone (h.2 slot hslot)

lemma exists_size_eq_succ {cell : Cell} (h : s.cell? slot = some cell) :
    ∃ depth, s.cells.size = depth + 1 := by
  obtain ⟨i, rfl⟩ := exists_ref h
  obtain ⟨hi, -⟩ := Array.getElem?_eq_some_iff.mp h
  exact ⟨_, (Nat.succ_pred_eq_of_pos (Nat.zero_lt_of_lt hi)).symm⟩

/-- Whether a node has the fields by which its companions are found, if it is a section, and the
parts are a sequence. -/
def HasParts (s : Store) (n : Node) : Prop :=
  n.kind = .formatSection → (n.field? "condition").isSome ∧ ∃ parts cell,
    n.field? "parts" = some parts ∧ s.cell? parts = some cell ∧ cell.IsSequence

/-- A node is frozen if its companions are nodes that have none themselves. -/
theorem exists_freeze {n : Node} (hcell : s.cell? slot = some (.node n)) (hparts : s.HasParts n)
    (hlone : ∀ other, s.HasCompanion slot other → s.IsLone other) :
    ∃ t, s.freeze slot = (.ok (), t) := by
  obtain ⟨i, rfl⟩ := exists_ref hcell
  by_cases hkind : n.kind = .formatSection
  · obtain ⟨hcondition, parts, cell, hfield, hsequenceCell, hsequence⟩ := hparts hkind
    obtain ⟨condition, hcondition⟩ := Option.isSome_iff_exists.mp hcondition
    have hslots : s.companions n = .ok (condition :: cell.items) := by
      rw [companions_section hkind hcondition hfield, iterate_sequence hsequenceCell hsequence]
      rfl
    -- One level below the section is enough for its companions.
    obtain ⟨depth, hdepth⟩ := exists_size_eq_succ hcell
    have hlone' : ∀ other ∈ (condition :: cell.items).filter fun slot => !slot.isNull,
        s.IsLone other := by
      intro other hother
      obtain ⟨hmem, hnull⟩ := List.mem_filter.mp hother
      exact hlone other ⟨by simpa using hnull, n, condition, parts, hcell, hkind, hcondition,
        hfield, (List.mem_cons.mp hmem).imp id fun h => ⟨cell, hsequenceCell, hsequence, h⟩⟩
    obtain ⟨t, hturn⟩ := exists_eachInTurn hlone' depth
    refine ⟨t.put i (.node { n with frozen := true }), ?_⟩
    rw [freeze, freezeTo, node?_eq_some_iff.mpr hcell]
    dsimp only
    rw [hslots]
    dsimp only
    rw [hdepth, hturn]
  · exact ⟨_, freezeTo_node hkind hcell _⟩

end Store

end FormatCode
