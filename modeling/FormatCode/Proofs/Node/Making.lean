import FormatCode.Proofs.Format.Choice
import FormatCode.Proofs.Node.Freezing
import FormatCode.Proofs.Outcome

/-!
# The nodes of a format

A format does not freeze its sections, and a section freezes no more than its condition and its
parts. All nodes of a format are frozen nevertheless when the format is made: each section is frozen
when it is done, and neither conditions nor parts hold nodes of their own.

## Main definitions

* `Cell.IsFinished` — the cells that are sealed and have a slot for each field.
* `Value.IsLone` — the nodes that hold no others and with which nothing else is frozen.
* `Store.HoldsSection` — the cells of a section.

## Main statements

* `Store.HoldsSection.hasCompanion_iff` — what is frozen with a section.
* `Store.exists_insertSection` — all nodes of a section are frozen when it is made.
* `Store.exists_insertFormat` — all nodes of a format are frozen when it is made.
-/

namespace FormatCode

/-- Whether a cell is sealed, and a node among them has a slot for each field and for nothing
else. -/
structure Cell.IsFinished (c : Cell) : Prop where
  isSealed : c.IsSealed
  isBare : c.IsBare
  length_eq : ∀ n, c = .node n → n.fields.length = n.kind.fieldNames.length

lemma Cell.isFinished_node {n : Node} (hfrozen : n.frozen = true) (hbare : (node n).IsBare)
    (h : n.fields.length = n.kind.fieldNames.length) : (Cell.node n).IsFinished :=
  ⟨hfrozen, hbare, fun _ heq => Cell.node.inj heq ▸ h⟩

lemma Cell.isFinished_tuple (items : List Slot) : (Cell.tuple items).IsFinished :=
  ⟨trivial, rfl, nofun⟩

/-! ## Nodes that hold no others -/

/-- Whether a value is a node that holds a plain value in each field and is no section. -/
def Value.IsLone : Value → Prop
  | node kind values => kind ≠ .formatSection ∧ values.length = kind.fieldNames.length ∧
      ∀ v ∈ values, v.height = 0
  | _ => False

lemma Part.isLone_toValue (p : Part) : p.toValue.IsLone := by
  cases p with
  | placeholder p => cases p <;> exact ⟨nofun, rfl, nofun⟩
  | literal text => exact ⟨nofun, rfl, List.forall_mem_singleton.mpr rfl⟩
  | _ => exact ⟨nofun, rfl, nofun⟩

lemma Condition.isLone_toValue {c : Condition} (hc : c.IsComparable) : c.toValue.IsLone := by
  obtain ⟨-, hthreshold⟩ := hc
  refine ⟨nofun, rfl, List.forall_mem_cons.mpr ⟨rfl, List.forall_mem_singleton.mpr ?_⟩⟩
  cases hvalue : c.threshold with
  | int i => rfl
  | float x => rfl
  | _ =>
    rw [hvalue] at hthreshold
    exact hthreshold.elim

lemma Value.height_textOrNull (s : Option String) : (Value.textOrNull s).height = 0 := by
  cases s <;> rfl

namespace Store

variable {s t : Store} {slot : Slot} {v : Value} {p q : Cell → Prop}

lemma Holds.eq_plain (h : s.Holds p slot v) (hv : v.height = 0) : slot = .plain v := by
  cases h with
  | plain h => rfl
  | cell hcell hp hlength hitems =>
    rw [Value.height_value] at hv
    cases hv

/-- A plain value is held whatever the cells are. -/
lemma Holds.of_plain (h : s.Holds p slot v) (hv : v.height = 0) : t.Holds q slot v := by
  rw [h.eq_plain hv]
  exact .plain hv

lemma forall₂_holds_of_plain {slots : List Slot} {values : List Value}
    (h : List.Forall₂ (s.Holds p) slots values) (hv : ∀ v ∈ values, v.height = 0) :
    List.Forall₂ (t.Holds q) slots values := by
  induction h with
  | nil => exact .nil
  | cons hfirst _ ih =>
    rw [List.forall_mem_cons] at hv
    exact .cons (hfirst.of_plain hv.1) (ih hv.2)

lemma IsLone.isNull_eq_false (h : s.IsLone slot) : slot.isNull = false := by
  obtain ⟨n, hcell, -⟩ := h
  obtain ⟨i, rfl⟩ := exists_ref hcell
  rfl

lemma Holds.isLone (h : s.Holds p slot v) (hv : v.IsLone) : s.IsLone slot := by
  cases v with
  | node kind values =>
    obtain ⟨n, hcell, rfl, -⟩ := h.exists_node
    exact ⟨n, hcell, hv.1⟩
  | _ => exact hv.elim

/-- Below a node that holds no others there is nothing to be frozen. -/
lemma Holds.finished_of_isLone (h : s.Holds Cell.IsBare slot v) (hv : v.IsLone) {n : Node}
    (hcell : s.cell? slot = some (.node n)) (hn : n.frozen = true) :
    s.Holds Cell.IsFinished slot v := by
  cases v with
  | node kind values =>
    obtain ⟨m, hcell', rfl, hbare, hfields⟩ := h.exists_node
    obtain rfl := Cell.node.inj (Option.some.inj (hcell.symm.trans hcell'))
    exact .of_forall₂ hcell (Cell.isFinished_node hn hbare (hfields.length_eq.trans hv.2.1))
      (forall₂_holds_of_plain hfields hv.2.2)
  | _ => exact hv.elim

/-! ## The cells of a section -/

/-- The cells of a section are a node and a tuple of its parts, and those of its condition and
parts. -/
structure HoldsSection (s : Store) (p : Cell → Prop) (slot : Slot) (sec : Section) (n : Node)
    (condition color parts : Slot) (rest items : List Slot) : Prop where
  node : s.cell? slot = some (.node n)
  kind : n.kind = .formatSection
  known : p (.node n)
  fields : n.fields = condition :: color :: parts :: rest
  parts : s.cell? parts = some (.tuple items)
  condition : s.Holds p condition (sec.condition.elim .null Condition.toValue)
  color : s.Holds p color (.textOrNull sec.color)
  items : List.Forall₂ (fun item (part : Part) => s.Holds p item part.toValue) items sec.parts
  rest : List.Forall₂ (s.Holds p) rest
    [.int sec.percentCount, .bool sec.grouped, .int sec.scale, .textOrNull sec.scientific]

lemma Holds.exists_section {sec : Section} (h : s.Holds p slot sec.toValue) :
    ∃ n condition color parts rest items,
      s.HoldsSection p slot sec n condition color parts rest items := by
  obtain ⟨n, hcell, hkind, hn, hfields⟩ := h.exists_node
  obtain ⟨condition, _, hcondition, hfields₁, heq⟩ := List.forall₂_cons_right_iff.mp hfields
  obtain ⟨color, _, hcolor, hfields₂, rfl⟩ := List.forall₂_cons_right_iff.mp hfields₁
  obtain ⟨parts, rest, hparts, hrest, rfl⟩ := List.forall₂_cons_right_iff.mp hfields₂
  obtain ⟨items, hitemsCell, hitems⟩ := hparts.exists_tuple
  exact ⟨n, condition, color, parts, rest, items, hcell, hkind, hn, heq, hitemsCell, hcondition,
    hcolor, List.forall₂_map_right_iff.mp hitems, hrest⟩

namespace HoldsSection

variable {sec : Section} {n : Node} {condition color parts other : Slot} {rest items : List Slot}

lemma field?_condition (h : s.HoldsSection p slot sec n condition color parts rest items) :
    n.field? "condition" = some condition := by
  rw [Node.field?, h.kind, h.fields]
  rfl

lemma field?_parts (h : s.HoldsSection p slot sec n condition color parts rest items) :
    n.field? "parts" = some parts := by
  rw [Node.field?, h.kind, h.fields]
  rfl

/-- What is frozen with a section are its parts, and its condition if there is one. -/
lemma hasCompanion_iff (h : s.HoldsSection p slot sec n condition color parts rest items) :
    s.HasCompanion slot other ↔ other.isNull = false ∧ (other = condition ∨ other ∈ items) := by
  refine and_congr_right fun _ => ⟨?_, fun hother => ?_⟩
  · rintro ⟨m, condition', parts', hcell, -, hcondition, hparts, hother⟩
    obtain rfl := Cell.node.inj (Option.some.inj (h.node.symm.trans hcell))
    obtain rfl := Option.some.inj (h.field?_condition.symm.trans hcondition)
    obtain rfl := Option.some.inj (h.field?_parts.symm.trans hparts)
    refine hother.imp id ?_
    rintro ⟨cell, hcell, -, hmem⟩
    obtain rfl := Option.some.inj (h.parts.symm.trans hcell)
    exact hmem
  · exact ⟨n, condition, parts, h.node, h.kind, h.field?_condition, h.field?_parts,
      hother.imp id fun hmem => ⟨_, h.parts, trivial, hmem⟩⟩

lemma isLone_of_mem (h : s.HoldsSection p slot sec n condition color parts rest items) :
    ∀ item ∈ items, s.IsLone item := by
  have hlone := h.items.imp fun _ part hpart => And.intro (hpart.isLone part.isLone_toValue) trivial
  exact ((List.forall₂_and_left _ _).mp hlone).1

lemma isLone_condition (h : s.HoldsSection p slot sec n condition color parts rest items)
    (hsec : sec.IsComparable) {c : Condition} (hc : sec.condition = some c) :
    s.IsLone condition := by
  have hcondition := h.condition
  rw [hc] at hcondition
  exact hcondition.isLone (Condition.isLone_toValue (hsec c hc))

/-- Nothing more is frozen with what is frozen with a section. -/
lemma isLone (h : s.HoldsSection p slot sec n condition color parts rest items)
    (hsec : sec.IsComparable) (hother : s.HasCompanion slot other) : s.IsLone other := by
  obtain ⟨hnull, rfl | hmem⟩ := h.hasCompanion_iff.mp hother
  · cases hc : sec.condition with
    | none =>
      have hcondition := h.condition
      rw [hc] at hcondition
      rw [hcondition.eq_plain rfl] at hnull
      cases hnull
    | some c => exact h.isLone_condition hsec hc
  · exact h.isLone_of_mem other hmem

/-- Where a section and what is frozen with it are marked, all its nodes are. -/
lemma finished (h : s.HoldsSection Cell.IsBare slot sec n condition color parts rest items)
    (hsec : sec.IsComparable) (hfreezes : s.FreezesTo t)
    (hmarks : s.Marks (s.FreezesWith slot) t) : t.Holds Cell.IsFinished slot sec.toValue := by
  -- What was held is held still, and below the nodes that are frozen now there are no others.
  have hfinished : ∀ {other v}, s.Holds Cell.IsBare other v → v.IsLone → s.HasCompanion slot other →
      t.Holds Cell.IsFinished other v := by
    intro other v hv hvlone hother
    obtain ⟨m, -, hm⟩ := hmarks.exists_node other (.single hother)
    exact (hfreezes.growsTo.holds (fun cell h => h.sealed) hv).finished_of_isLone hvlone hm rfl
  have hcondition : t.Holds Cell.IsFinished condition
      (sec.condition.elim .null Condition.toValue) := by
    have hcondition := h.condition
    cases hc : sec.condition with
    | none =>
      rw [hc] at hcondition
      exact hcondition.of_plain rfl
    | some c =>
      rw [hc] at hcondition
      refine hfinished hcondition (Condition.isLone_toValue (hsec c hc)) (h.hasCompanion_iff.mpr ?_)
      exact ⟨(h.isLone_condition hsec hc).isNull_eq_false, .inl rfl⟩
  have hparts : t.Holds Cell.IsFinished parts (.tuple (sec.parts.map Part.toValue)) := by
    refine .of_forall₂ (hfreezes.protects.cell?_eq _ _ h.parts trivial)
      (Cell.isFinished_tuple items) ?_
    have hcompanion : ∀ item ∈ items, s.HasCompanion slot item := fun item hmem =>
      h.hasCompanion_iff.mpr ⟨(h.isLone_of_mem item hmem).isNull_eq_false, .inr hmem⟩
    rw [List.forall₂_map_right_iff]
    refine ((List.forall₂_and_left _ _).mpr ⟨hcompanion, h.items⟩).imp fun _ part hpart => ?_
    exact hfinished hpart.2 part.isLone_toValue hpart.1
  have hvalues : List.Forall₂ (t.Holds Cell.IsFinished) n.fields
      [sec.condition.elim .null Condition.toValue, .textOrNull sec.color,
        .tuple (sec.parts.map Part.toValue), .int sec.percentCount, .bool sec.grouped,
        .int sec.scale, .textOrNull sec.scientific] := by
    rw [h.fields]
    refine .cons hcondition (.cons (h.color.of_plain (Value.height_textOrNull _))
      (.cons hparts (forall₂_holds_of_plain h.rest ?_)))
    simp [Value.height, Value.height_textOrNull]
  have hlength : n.fields.length = n.kind.fieldNames.length := by
    rw [hvalues.length_eq, h.kind]
    rfl
  obtain ⟨m, hm, hsection⟩ := hmarks.exists_node slot .refl
  obtain rfl := Cell.node.inj (Option.some.inj (h.node.symm.trans hm))
  have hholds := Holds.of_forall₂ hsection (Cell.isFinished_node rfl h.known.sealed hlength) hvalues
  rw [Cell.value, h.kind] at hholds
  exact hholds

end HoldsSection

/-! ## Making a format -/

/-- Freezing a section leaves none of its nodes that is not frozen. -/
theorem exists_frozen_holds {sec : Section} (hsec : sec.IsComparable)
    (h : s.Holds Cell.IsBare slot sec.toValue) :
    ∃ t, s.frozen slot = .ok t ∧ t.Holds Cell.IsFinished slot sec.toValue := by
  obtain ⟨n, condition, color, parts, rest, items, hcells⟩ := h.exists_section
  have hparts : s.HasParts n := fun _ => ⟨Option.isSome_of_eq_some hcells.field?_condition, parts,
    _, hcells.field?_parts, hcells.parts, trivial⟩
  obtain ⟨t, hfreeze⟩ := exists_freeze hcells.node hparts fun other => hcells.isLone hsec
  have hfreezes := freezesTo_freeze s slot
  rw [hfreeze] at hfreezes
  exact ⟨t, frozen_eq_ok_iff.mpr hfreeze, hcells.finished hsec hfreezes (marks_freeze hfreeze)⟩

/-- All nodes of a section are frozen when it is made, and no others. -/
theorem exists_insertSection (s : Store) {sec : Section} (hsec : sec.IsComparable) :
    ∃ slot t, s.insertSection sec = .ok (slot, t) ∧ s.IsPartOf t ∧
      t.Holds Cell.IsFinished slot sec.toValue := by
  have hinserts := s.inserts_insert sec.toValue
  obtain ⟨hholds, -⟩ := List.forall₂_cons.mp (hinserts.holds _ fun _ _ _ h => h)
  obtain ⟨t, hfrozen, hfinished⟩ := exists_frozen_holds hsec hholds
  refine ⟨(s.insert sec.toValue).1, t, Except.map_eq_ok_iff.mpr ⟨t, hfrozen, rfl⟩,
    fun other cell hcell => ?_, hfinished⟩
  -- What is frozen with the section can be reached from it, and so is new.
  rw [(marks_freeze (frozen_eq_ok_iff.mp hfrozen)).kept other fun hwith => ?_,
    hinserts.isPartOf other cell hcell]
  have hnone := cell?_eq_none_of_isBeyond
    (hinserts.isBeyond_of_reaches (List.mem_singleton_self _) hwith.reaches)
  rw [hcell] at hnone
  cases hnone

/-- All nodes of all sections are frozen when they are made. -/
lemma exists_insertSections (s : Store) {sections : List Section}
    (h : ∀ sec ∈ sections, sec.IsComparable) :
    ∃ slots t, s.insertSections sections = .ok (slots, t) ∧ s.IsPartOf t ∧
      List.Forall₂ (t.Holds Cell.IsFinished) slots (sections.map Section.toValue) := by
  induction sections generalizing s with
  | nil => exact ⟨[], s, rfl, fun _ _ => id, .nil⟩
  | cons sec rest ih =>
    rw [List.forall_mem_cons] at h
    obtain ⟨slot, u, hfirst, hpart, hholds⟩ := s.exists_insertSection h.1
    obtain ⟨slots, t, hrest, hpart', hholds'⟩ := ih u h.2
    have hfirst' := hpart'.protects.holds (fun _ h => h.isSealed) hholds
    refine ⟨slot :: slots, t, ?_, hpart.trans hpart', .cons hfirst' hholds'⟩
    simp only [insertSections, hfirst, hrest, bind, Except.bind, pure, Except.pure]

/-- All nodes of a format are frozen when it is made, and no others. -/
theorem exists_insertFormat (s : Store) {f : Format} (h : ∀ sec ∈ f.sections, sec.IsComparable) :
    ∃ root t, s.insertFormat f = .ok (root, t) ∧ s.IsPartOf t ∧
      t.Holds Cell.IsFinished root f.toValue := by
  obtain ⟨slots, u, hsections, hpart, hholds⟩ := s.exists_insertSections h
  -- The tuple of the sections, and the node of the format, which is not frozen yet.
  obtain ⟨sections, v, hv⟩ : ∃ sections v, u.push (.tuple slots) = (sections, v) := ⟨_, _, rfl⟩
  have hsectionsCell := (cell?_push_new u (.tuple slots)).2
  have hpart' := isPartOf_push u (.tuple slots)
  rw [hv] at hsectionsCell hpart'
  obtain ⟨root, w, hw⟩ :
      ∃ root w, v.push (.node { kind := .format, fields := [sections] }) = (root, w) := ⟨_, _, rfl⟩
  obtain ⟨hnone, hrootCell⟩ := cell?_push_new v (.node { kind := .format, fields := [sections] })
  have hpart'' := isPartOf_push v (.node { kind := .format, fields := [sections] })
  rw [hw] at hnone hrootCell hpart''
  obtain ⟨i, rfl⟩ := exists_ref hrootCell
  have hkind : NodeKind.format ≠ .formatSection := nofun
  have hfreeze := freezeTo_node hkind hrootCell w.cells.size
  -- The node of the format is new, so that freezing it leaves the others as they are.
  have hkept : v.IsPartOf (w.put i (.node ⟨.format, [sections], [], true⟩)) := by
    intro other cell hcell
    rw [cell?_put_of_ne, hpart'' other cell hcell]
    rintro rfl
    rw [hnone] at hcell
    cases hcell
  refine ⟨.ref i, _, ?_, (hpart.trans hpart').trans hkept, ?_⟩
  · simp only [insertFormat, hsections, hv, hw, bind, Except.bind]
    exact Except.map_eq_ok_iff.mpr ⟨_, frozen_eq_ok_iff.mpr hfreeze, rfl⟩
  · refine .of_forall₂ (cell?_put_self hrootCell _)
      (Cell.isFinished_node rfl (Cell.isBare_node rfl) rfl) (.cons ?_ .nil)
    refine .of_forall₂ (hkept _ _ hsectionsCell) (Cell.isFinished_tuple slots) ?_
    exact hholds.imp fun _ _ h =>
      (hpart'.trans hkept).protects.holds (fun _ h => h.isSealed) h

end Store

end FormatCode
