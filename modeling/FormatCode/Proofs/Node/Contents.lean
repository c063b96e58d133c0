import FormatCode.Node.Store
import Mathlib.Data.List.Forall2
import Mathlib.Order.Interval.Finset.Nat
import Mathlib.Logic.Relation
import Mathlib.Tactic.Lemma

/-!
# What slots hold

A slot holds a value if it is a plain one, or refers to a cell whose items hold the members of the
value. What is known of all cells on the way is a parameter: nothing of them, or that they are
frozen. Looking deep enough at a slot that holds a value gives the value, so a slot holds no more
than one. Below the slot there are values of every smaller height, so that no value is higher than
the store is large.

## Main definitions

* `Cell.links`, `Cell.IsBare` — all slots in a cell, and whether they are its fields or members.
* `Value.height` — how many nodes and sequences of a value are within one another.
* `Store.Reaches` — the slots that a slot leads to.
* `Store.Holds` — whether a slot holds a value.
* `Store.Inserts` — whether a store has new cells for values.

## Main statements

* `Store.Holds.mono` — what is held is kept where its cells are kept.
* `Store.Holds.viewTo_eq`, `Store.Holds.view_eq` — looking at a slot gives what it
  holds.
* `Store.Holds.height_le` — no value that is held is higher than the store is large.
* `Store.Holds.exists_of_reaches` — what can be reached holds a value, where nothing is stored
  beside fields.
* `Store.inserts_insert`, `Store.inserts_insertAll` — new nodes hold what they are made for, and
  refer to new nodes only.
-/

namespace FormatCode

lemma mapM_eq_some_iff {α β : Type} {f : α → Option β} {as : List α} {bs : List β} :
    as.mapM f = some bs ↔ List.Forall₂ (fun a b => f a = some b) as bs := by
  induction as generalizing bs with
  | nil => simp [eq_comm]
  | cons a as ih =>
    rw [List.mapM_cons, List.forall₂_cons_left_iff]
    simp only [← ih]
    cases f a <;> cases as.mapM f <;> simp [eq_comm]

lemma mem_of_lookup_eq_some {α : Type} {entries : List (String × α)} {name : String} {a : α}
    (h : entries.lookup name = some a) : (name, a) ∈ entries := by
  obtain ⟨before, after, rfl, -⟩ := List.lookup_eq_some_iff.mp h
  exact List.mem_append_right _ (List.mem_cons_self ..)

/-! ## Cells and values -/

namespace Cell

/-- All slots in a cell, those that are stored beside the fields of a node included. -/
def links : Cell → List Slot
  | node n => n.fields ++ n.others.map (·.2)
  | list items | tuple items => items

def IsBare (c : Cell) : Prop := c.links = c.items

lemma items_subset_links (c : Cell) : c.items ⊆ c.links := by
  cases c with
  | node n => exact List.subset_append_left ..
  | _ => exact List.Subset.refl _

lemma isBare_node {n : Node} (h : n.others = []) : (node n).IsBare := by
  rw [IsBare, links, h]
  exact List.append_nil _

end Cell

namespace Value

mutual

def height : Value → Nat
  | node _ values | list values | tuple values => heights values + 1
  | _ => 0

def heights : List Value → Nat
  | [] => 0
  | v :: vs => max (height v) (heights vs)

end

lemma height_value (cell : Cell) (values : List Value) :
    (cell.value values).height = heights values + 1 := by
  cases cell <;> rw [Cell.value, height]

lemma height_le_heights {v : Value} {values : List Value} (h : v ∈ values) :
    v.height ≤ heights values := by
  induction values with
  | nil => cases h
  | cons first rest ih =>
    rw [heights]
    obtain rfl | h := List.mem_cons.mp h
    · exact Nat.le_max_left _ _
    · exact (ih h).trans (Nat.le_max_right _ _)

lemma exists_heights_le {values : List Value} (h : 0 < heights values) :
    ∃ v ∈ values, heights values ≤ v.height := by
  induction values with
  | nil => cases h
  | cons first rest ih =>
    rw [heights] at h ⊢
    obtain hlt | hle := Nat.lt_or_ge first.height (heights rest)
    · obtain ⟨v, hv, hheight⟩ := ih (by omega)
      exact ⟨v, List.mem_cons_of_mem _ hv, by omega⟩
    · exact ⟨first, List.mem_cons_self .., by omega⟩

end Value

def Slot.IsBeyond (size : Nat) : Slot → Prop
  | plain _ => True
  | ref i => size ≤ i

lemma Slot.IsBeyond.mono {slot : Slot} {m n : Nat} (h : slot.IsBeyond n) (hle : m ≤ n) :
    slot.IsBeyond m := by
  cases slot with
  | plain v => trivial
  | ref i => exact Nat.le_trans hle h

namespace Store

variable {s t : Store} {slot : Slot} {v : Value}

/-! ## What can be reached -/

def HasLink (s : Store) (slot other : Slot) : Prop :=
  ∃ cell, s.cell? slot = some cell ∧ other ∈ cell.links

def Reaches (s : Store) : Slot → Slot → Prop := Relation.ReflTransGen s.HasLink

lemma cell?_ref (s : Store) (i : Nat) : s.cell? (.ref i) = s.cells[i]? := rfl

lemma exists_ref {cell : Cell} (h : s.cell? slot = some cell) : ∃ i, slot = .ref i := by
  cases slot with
  | plain v => cases h
  | ref i => exact ⟨i, rfl⟩

lemma node?_eq_some_iff {n : Node} : s.node? slot = some n ↔ s.cell? slot = some (.node n) := by
  rw [node?]
  split
  · next heq => simp [heq]
  · next hne =>
    simp only [reduceCtorEq, false_iff]
    exact hne n

/-! ## What slots hold -/

/-- Whether a slot holds a value, in cells of which something is known. -/
inductive Holds (p : Cell → Prop) (s : Store) : Slot → Value → Prop
  | plain {v : Value} (h : v.height = 0) : Holds p s (.plain v) v
  -- The items are related place by place, so that an induction reaches each of them.
  | cell {slot : Slot} {cell : Cell} {values : List Value} (hcell : s.cell? slot = some cell)
    (hp : p cell) (hlength : cell.items.length = values.length)
    (hitems : ∀ k (h : k < cell.items.length) (h' : k < values.length),
      Holds p s (cell.items.get ⟨k, h⟩) (values.get ⟨k, h'⟩)) :
    Holds p s slot (cell.value values)

variable {p q : Cell → Prop}

lemma Holds.of_forall₂ {cell : Cell} {values : List Value} (hcell : s.cell? slot = some cell)
    (hp : p cell) (hitems : List.Forall₂ (s.Holds p) cell.items values) :
    s.Holds p slot (cell.value values) :=
  .cell hcell hp hitems.length_eq (List.forall₂_iff_get.mp hitems).2

/-- A slot of a sequence or node is held by the items of its cell. -/
lemma Holds.exists_cell (h : s.Holds p slot v) {cell : Cell} (hcell : s.cell? slot = some cell) :
    p cell ∧ ∃ values, v = cell.value values ∧ List.Forall₂ (s.Holds p) cell.items values := by
  cases h with
  | plain h => cases hcell
  | cell hcell' hp hlength hitems =>
    obtain rfl := Option.some.inj (hcell'.symm.trans hcell)
    exact ⟨hp, _, rfl, List.forall₂_iff_get.mpr ⟨hlength, hitems⟩⟩

/-- A slot that holds a node refers to one. -/
lemma Holds.exists_node {kind : NodeKind} {values : List Value}
    (h : s.Holds p slot (.node kind values)) :
    ∃ n, s.cell? slot = some (.node n) ∧ n.kind = kind ∧ p (.node n) ∧
      List.Forall₂ (s.Holds p) n.fields values := by
  generalize hv : Value.node kind values = v at h
  cases h with
  | plain h =>
    rw [← hv, Value.height] at h
    cases h
  | @cell _ cell values' hcell hp hlength hitems =>
    cases cell with
    | node n =>
      obtain ⟨rfl, rfl⟩ := Value.node.inj hv
      exact ⟨n, hcell, rfl, hp, List.forall₂_iff_get.mpr ⟨hlength, hitems⟩⟩
    | _ => cases hv

/-- A slot that holds a tuple refers to one. -/
lemma Holds.exists_tuple {values : List Value} (h : s.Holds p slot (.tuple values)) :
    ∃ items, s.cell? slot = some (.tuple items) ∧ List.Forall₂ (s.Holds p) items values := by
  generalize hv : Value.tuple values = v at h
  cases h with
  | plain h =>
    rw [← hv, Value.height] at h
    cases h
  | @cell _ cell values' hcell hp hlength hitems =>
    cases cell with
    | tuple items =>
      obtain rfl := Value.tuple.inj hv
      exact ⟨items, hcell, List.forall₂_iff_get.mpr ⟨hlength, hitems⟩⟩
    | _ => cases hv

/-- What is held is kept by every store that keeps its cells, up to what is known of them. -/
theorem Holds.mono (h : s.Holds p slot v)
    (hcells : ∀ slot cell, s.cell? slot = some cell → p cell → ∃ cell', t.cell? slot = some cell' ∧
      q cell' ∧ cell'.items = cell.items ∧ cell'.value = cell.value) : t.Holds q slot v := by
  induction h with
  | plain h => exact .plain h
  | cell hcell hp hlength hitems ih =>
    obtain ⟨cell', hcell', hq, hitems', hvalue⟩ := hcells _ _ hcell hp
    rw [← hvalue]
    exact .of_forall₂ hcell' hq (hitems' ▸ List.forall₂_iff_get.mpr ⟨hlength, ih⟩)

@[simp] lemma viewTo_plain (s : Store) (depth : Nat) (v : Value) :
    s.viewTo depth (.plain v) = some v := by
  cases depth <;> rfl

/-- One step of looking at a cell. -/
lemma viewTo_succ {cell : Cell} (h : s.cell? slot = some cell) (depth : Nat) :
    s.viewTo (depth + 1) slot = (cell.items.mapM (s.viewTo depth)).map cell.value := by
  obtain ⟨i, rfl⟩ := exists_ref h
  rw [cell?_ref] at h
  simp only [viewTo, h, bind, Option.bind_some, pure, Option.map_eq_bind]
  rfl

/-- Looking at a slot gives the value that it holds, no deeper than the value is high. -/
theorem Holds.viewTo_eq (h : s.Holds p slot v) {depth : Nat} (hdepth : v.height ≤ depth) :
    s.viewTo depth slot = some v := by
  induction h generalizing depth with
  | plain h => exact viewTo_plain ..
  | @cell slot cell values hcell hp hlength hitems ih =>
    rw [Value.height_value] at hdepth
    obtain ⟨depth, rfl⟩ := Nat.exists_eq_add_of_lt (Nat.lt_of_lt_of_le (Nat.succ_pos _) hdepth)
    rw [Nat.zero_add] at hdepth ⊢
    refine (viewTo_succ hcell depth).trans (Option.map_eq_some_iff.mpr ⟨values, ?_, rfl⟩)
    refine mapM_eq_some_iff.mpr (List.forall₂_iff_get.mpr ⟨hlength, fun k h h' => ?_⟩)
    -- A member is not as high as the whole.
    have hmember := Value.height_le_heights (List.get_mem values ⟨k, h'⟩)
    exact ih k h h' (by omega)

/-- A slot holds one value only. -/
theorem Holds.unique {u : Value} (h : s.Holds p slot v) (h' : s.Holds q slot u) : v = u := by
  have hv := h.viewTo_eq (Nat.le_max_left v.height u.height)
  rw [h'.viewTo_eq (Nat.le_max_right v.height u.height)] at hv
  exact (Option.some.inj hv).symm

/-- Among the cells below a slot there is one for every height up to that of the value. -/
lemma Holds.exists_ref_of_height (h : s.Holds p slot v) {height : Nat} (hpos : 0 < height)
    (hle : height ≤ v.height) :
    ∃ i < s.cells.size, ∃ u, s.Holds p (.ref i) u ∧ u.height = height := by
  induction h with
  | plain h => omega
  | @cell slot cell values hcell hp hlength hitems ih =>
    have htop := Value.height_value cell values
    obtain heq | hlt := Nat.eq_or_lt_of_le hle
    · obtain ⟨i, rfl⟩ := exists_ref hcell
      obtain ⟨hi, -⟩ := Array.getElem?_eq_some_iff.mp hcell
      exact ⟨i, hi, _, .cell hcell hp hlength hitems, heq.symm⟩
    · obtain ⟨member, hmember, hheights⟩ : ∃ u ∈ values, Value.heights values ≤ u.height :=
        Value.exists_heights_le (by omega)
      obtain ⟨k, hk, rfl⟩ := List.getElem_of_mem hmember
      exact ih k (hlength ▸ hk) hk (by simpa using (show height ≤ values[k].height by omega))

/-- No value that is held is higher than the store is large, since the cells for different heights
are different. -/
theorem Holds.height_le (h : s.Holds p slot v) : v.height ≤ s.cells.size := by
  choose! address hsize member hholds hheight using
    fun (height : Nat) (hheight : 0 < height ∧ height ≤ v.height) =>
      h.exists_ref_of_height hheight.1 hheight.2
  have hcard : (Finset.Icc 1 v.height).card ≤ (Finset.range s.cells.size).card := by
    refine Finset.card_le_card_of_injOn address (fun i hi => ?_) fun i hi j hj heq => ?_
    · exact Finset.mem_coe.mpr (Finset.mem_range.mpr (hsize i (Finset.mem_Icc.mp hi)))
    · have hi' := hholds i (Finset.mem_Icc.mp hi)
      rw [heq] at hi'
      rw [← hheight i (Finset.mem_Icc.mp hi), ← hheight j (Finset.mem_Icc.mp hj),
        hi'.unique (hholds j (Finset.mem_Icc.mp hj))]
  simpa using hcard

/-- Looking at a slot gives the value that it holds. -/
theorem Holds.view_eq (h : s.Holds p slot v) : s.view slot = some v := h.viewTo_eq h.height_le

/-- What can be reached from a slot that holds a value holds a value too, if nothing is stored
beside the fields of nodes. -/
theorem Holds.exists_of_reaches (h : s.Holds p slot v) (hp : ∀ cell, p cell → cell.IsBare)
    {target : Slot} (hreaches : s.Reaches slot target) : ∃ u, s.Holds p target u := by
  induction hreaches with
  | refl => exact ⟨v, h⟩
  | tail _ hlink ih =>
    obtain ⟨u, hu⟩ := ih
    obtain ⟨cell, hcell, hmem⟩ := hlink
    obtain ⟨hcell', values, -, hitems⟩ := hu.exists_cell hcell
    rw [hp cell hcell'] at hmem
    obtain ⟨k, hk, rfl⟩ := List.getElem_of_mem hmem
    exact ⟨_, hitems.get hk (hitems.length_eq ▸ hk)⟩

/-! ## New nodes -/

def IsPartOf (s t : Store) : Prop :=
  ∀ slot cell, s.cell? slot = some cell → t.cell? slot = some cell

lemma IsPartOf.trans {u : Store} (h : s.IsPartOf t) (h' : t.IsPartOf u) : s.IsPartOf u :=
  fun slot cell hcell => h' slot cell (h slot cell hcell)

lemma IsPartOf.size_le (h : s.IsPartOf t) : s.cells.size ≤ t.cells.size := by
  by_contra hsize
  have hlast := h (.ref t.cells.size) _ (Array.getElem?_eq_getElem (Nat.lt_of_not_le hsize))
  rw [cell?_ref, Array.getElem?_size] at hlast
  cases hlast

lemma IsPartOf.cell?_eq_none (h : s.IsPartOf t) (hnone : t.cell? slot = none) :
    s.cell? slot = none := by
  cases hcell : s.cell? slot with
  | none => rfl
  | some cell =>
    rw [h slot cell hcell] at hnone
    cases hnone

lemma cell?_push_new (s : Store) (cell : Cell) :
    s.cell? (s.push cell).1 = none ∧ (s.push cell).2.cell? (s.push cell).1 = some cell :=
  ⟨Array.getElem?_size, Array.getElem?_push_size⟩

/-- A cell that is new is the only one that changes. -/
lemma cell?_push (s : Store) (cell : Cell) {slot : Slot} (h : slot ≠ (s.push cell).1) :
    (s.push cell).2.cell? slot = s.cell? slot := by
  cases slot with
  | plain v => rfl
  | ref i =>
    have hi : i ≠ s.cells.size := fun hi => h (congrArg Slot.ref hi)
    rw [cell?_ref, cell?_ref, push, Array.getElem?_push, if_neg hi]

lemma isPartOf_push (s : Store) (cell : Cell) : s.IsPartOf (s.push cell).2 := by
  intro slot cell' hcell
  rw [cell?_push, hcell]
  rintro rfl
  rw [(cell?_push_new s cell).1] at hcell
  cases hcell

/-- Whether a store has the cells of another one, and after them those of some values. The slots for
the values hold them whatever becomes of the cells before, and lead to none of these. -/
structure Inserts (s t : Store) (slots : List Slot) (values : List Value) : Prop where
  isPartOf : s.IsPartOf t
  isBeyond : ∀ slot ∈ slots, slot.IsBeyond s.cells.size
  links_isBeyond : ∀ slot cell, s.cell? slot = none → t.cell? slot = some cell →
    ∀ link ∈ cell.links, link.IsBeyond s.cells.size
  holds : ∀ u : Store,
    (∀ slot cell, s.cell? slot = none → t.cell? slot = some cell → u.cell? slot = some cell) →
      List.Forall₂ (u.Holds Cell.IsBare) slots values

lemma Inserts.nil (s : Store) : s.Inserts s [] [] := by
  refine ⟨fun _ _ => id, nofun, fun slot cell hnone hcell => ?_, fun _ _ => .nil⟩
  rw [hnone] at hcell
  cases hcell

lemma Inserts.plain (s : Store) (h : v.height = 0) : s.Inserts s [.plain v] [v] :=
  ⟨fun _ _ => id, List.forall_mem_singleton.mpr trivial, (Inserts.nil s).links_isBeyond,
    fun _ _ => .cons (.plain h) .nil⟩

/-- Values are inserted one after the other. -/
lemma Inserts.cons {u : Store} {slots : List Slot} {values : List Value}
    (h : s.Inserts t [slot] [v]) (h' : t.Inserts u slots values) :
    s.Inserts u (slot :: slots) (v :: values) := by
  have hsize := h.isPartOf.size_le
  refine ⟨h.isPartOf.trans h'.isPartOf, ?_, fun other cell hnone hcell link hlink => ?_,
    fun w hw => ?_⟩
  · exact List.forall_mem_cons.mpr ⟨h.isBeyond slot (List.mem_singleton_self slot),
      fun other hother => (h'.isBeyond other hother).mono hsize⟩
  · cases hcell' : t.cell? other with
    | none => exact (h'.links_isBeyond other cell hcell' hcell link hlink).mono hsize
    | some cell' =>
      obtain rfl := Option.some.inj ((h'.isPartOf other cell' hcell').symm.trans hcell)
      exact h.links_isBeyond other _ hnone hcell' link hlink
  · refine .cons (List.forall₂_cons.mp (h.holds w fun a cell hnone hcell => ?_)).1
      (h'.holds w fun a cell hnone hcell => hw a cell ?_ hcell)
    · exact hw a cell hnone (h'.isPartOf a cell hcell)
    · exact h.isPartOf.cell?_eq_none hnone

/-- A cell with the slots of values is inserted after them. -/
lemma Inserts.push {slots : List Slot} {values : List Value} (h : s.Inserts t slots values)
    {cell : Cell} (hitems : cell.items = slots) (hbare : cell.IsBare) :
    s.Inserts (t.push cell).2 [(t.push cell).1] [cell.value values] := by
  have hpart := isPartOf_push t cell
  obtain ⟨hnone, hnew⟩ := cell?_push_new t cell
  refine ⟨h.isPartOf.trans hpart, List.forall_mem_singleton.mpr h.isPartOf.size_le,
    fun other cell' hnone' hcell link hlink => ?_, fun u hu => .cons (.of_forall₂ ?_ hbare ?_) .nil⟩
  · by_cases hother : other = (t.push cell).1
    · subst hother
      obtain rfl := Option.some.inj (hnew.symm.trans hcell)
      rw [hbare, hitems] at hlink
      exact h.isBeyond link hlink
    · rw [cell?_push t cell hother] at hcell
      exact h.links_isBeyond other cell' hnone' hcell link hlink
  · exact hu _ cell (h.isPartOf.cell?_eq_none hnone) hnew
  · rw [hitems]
    exact h.holds u fun a cell' hnone hcell => hu a cell' hnone (hpart a cell' hcell)

lemma cell?_eq_none_of_isBeyond (h : slot.IsBeyond s.cells.size) : s.cell? slot = none := by
  cases slot with
  | plain v => rfl
  | ref i => exact Array.getElem?_eq_none h

/-- From new nodes only new ones can be reached. -/
lemma Inserts.isBeyond_of_reaches {slots : List Slot} {values : List Value}
    (h : s.Inserts t slots values) (hslot : slot ∈ slots) {other : Slot}
    (hreaches : t.Reaches slot other) : other.IsBeyond s.cells.size := by
  induction hreaches with
  | refl => exact h.isBeyond slot hslot
  | tail _ hlink ih =>
    obtain ⟨cell, hcell, hmem⟩ := hlink
    exact h.links_isBeyond _ cell (cell?_eq_none_of_isBeyond ih) hcell _ hmem

mutual

/-- New nodes hold the value that they are made for. -/
theorem inserts_insert (s : Store) :
    ∀ v, s.Inserts (s.insert v).2 [(s.insert v).1] [v]
  | .node _ fields => (inserts_insertAll s fields).push rfl (Cell.isBare_node rfl)
  | .list items => (inserts_insertAll s items).push rfl rfl
  | .tuple items => (inserts_insertAll s items).push rfl rfl
  | .null | .bool _ | .int _ | .float _ | .decimal _ | .fraction .. | .complex .. | .text _
  | .bytes _ | .mapping => .plain s rfl

/-- New nodes hold the values that they are made for. -/
theorem inserts_insertAll (s : Store) :
    ∀ values, s.Inserts (s.insertAll values).2 (s.insertAll values).1 values
  | [] => .nil s
  | v :: values => (inserts_insert s v).cons (inserts_insertAll _ values)

end

end Store

end FormatCode
