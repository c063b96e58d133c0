import FormatCode.Proofs.Format.Joined
import FormatCode.Proofs.Node.Making
import FormatCode.Proofs.Node.Steps

/-!
# Where names lead

Whatever is stored, frozen or copied, a name leads to cells of the store only, and to values that
hold no others. It may lead back to where it began: a node can be stored in itself. Looking at a
slot gives a value just if the slot holds one.

## Main definitions

* `Store.IsClosed` — whether a slot leads to nothing outside the store.
* `Workbench.IsClosed` — whether no name does.

## Main statements

* `Store.IsClosed.view_eq_some_iff` — looking at a slot gives what it holds.
* `Workbench.IsClosed.resolve`, `Workbench.IsClosed.resolve_eq` — what a path leads to, whatever
  cells are new and whatever is frozen.
* `Workbench.isClosed_step`, `Workbench.isClosed_run` — no step makes a name lead outside the store.
-/

namespace FormatCode

namespace Value

/-- The members of a value that holds no others hold none either. -/
lemma height_of_iterate {v u : Value} (h : v.height = 0) {values : List Value}
    (hvalues : v.iterate = .ok values) (hu : u ∈ values) : u.height = 0 := by
  cases v with
  | text s =>
    obtain rfl := Except.ok.inj hvalues
    obtain ⟨c, -, rfl⟩ := List.mem_map.mp hu
    rfl
  | bytes octets =>
    obtain rfl := Except.ok.inj hvalues
    obtain ⟨n, -, rfl⟩ := List.mem_map.mp hu
    rfl
  | mapping =>
    obtain rfl := Except.ok.inj hvalues
    cases hu
  | list items => cases h
  | tuple items => cases h
  | _ => cases hvalues

/-- An attribute holds no other values if no field does. -/
lemma height_of_property {kind : NodeKind} {fields : List Value}
    (hfields : ∀ v ∈ fields, v.height = 0)
    {name : String} {v : Value} (h : (node kind fields).property name = .ok v) : v.height = 0 := by
  rw [property] at h
  split at h
  · next found hfound =>
    obtain rfl := Except.ok.inj h
    obtain hfield | ⟨-, hconstant⟩ := Option.or_eq_some_iff.mp hfound
    · exact hfields _ (List.of_mem_zip (mem_of_lookup_eq_some hfield)).2
    · unfold NodeKind.constant? at hconstant
      split at hconstant
      · obtain ⟨b, -, rfl⟩ := Option.map_eq_some_iff.mp hconstant
        rfl
      · obtain ⟨s, -, rfl⟩ := Option.map_eq_some_iff.mp hconstant
        rfl
      · cases hconstant
  · cases h

end Value

namespace Store

variable {s t : Store} {slot content : Slot} {v : Value}

/-- Whether a slot is a value that holds no others, or refers to a cell. -/
def Covers (s : Store) : Slot → Prop
  | .plain v => v.height = 0
  | .ref i => i < s.cells.size

/-- Whether all slots that a slot leads to are values that hold no others, or refer to cells. -/
def IsClosed (s : Store) (slot : Slot) : Prop := ∀ other, s.Reaches slot other → s.Covers other

lemma IsClosed.covers (h : s.IsClosed slot) : s.Covers slot := h slot .refl

lemma IsClosed.link (h : s.IsClosed slot) {other : Slot} (hlink : s.HasLink slot other) :
    s.IsClosed other := fun _ hreaches => h _ (.head hlink hreaches)

/-- What is kept along all links and is covered is closed. -/
lemma isClosed_of_invariant {p : Slot → Prop} (hcovers : ∀ slot, p slot → s.Covers slot)
    (hlink : ∀ slot other, p slot → s.HasLink slot other → p other) (h : p slot) :
    s.IsClosed slot := by
  intro other hreaches
  refine hcovers other ?_
  induction hreaches with
  | refl => exact h
  | tail _ hstep ih => exact hlink _ _ ih hstep

lemma covers_of_cell? {cell : Cell} (h : s.cell? slot = some cell) : s.Covers slot := by
  obtain ⟨i, rfl⟩ := exists_ref h
  exact (Array.getElem?_eq_some_iff.mp h).1

lemma Covers.exists_cell {i : Nat} (h : s.Covers (.ref i)) :
    ∃ cell, s.cell? (.ref i) = some cell := ⟨_, Array.getElem?_eq_getElem h⟩

lemma isClosed_plain (s : Store) (h : v.height = 0) : s.IsClosed (.plain v) := by
  refine isClosed_of_invariant (p := fun slot => slot = .plain v) ?_ ?_ rfl
  · rintro _ rfl
    exact h
  · rintro _ other rfl ⟨cell, hcell, -⟩
    cases hcell

lemma Holds.covers {p : Cell → Prop} (h : s.Holds p slot v) : s.Covers slot := by
  cases h with
  | plain h => exact h
  | cell hcell => exact covers_of_cell? hcell

/-- New nodes lead to nothing outside the store. -/
lemma Holds.isClosed (h : s.Holds Cell.IsBare slot v) : s.IsClosed slot := by
  intro other hreaches
  obtain ⟨u, hu⟩ := h.exists_of_reaches (fun _ => id) hreaches
  exact hu.covers

/-! ## Looking -/

lemma IsClosed.holds_of_viewTo (h : s.IsClosed slot) {depth : Nat}
    (hv : s.viewTo depth slot = some v) : s.Holds (fun _ => True) slot v := by
  induction depth generalizing slot v with
  | zero =>
    cases slot with
    | plain u =>
      obtain rfl := Option.some.inj hv
      exact .plain h.covers
    | ref i => cases hv
  | succ depth ih =>
    cases slot with
    | plain u =>
      obtain rfl := Option.some.inj hv
      exact .plain h.covers
    | ref i =>
      obtain ⟨cell, hcell⟩ := h.covers.exists_cell
      rw [viewTo_succ hcell] at hv
      obtain ⟨values, hvalues, rfl⟩ := Option.map_eq_some_iff.mp hv
      have hitems := mapM_eq_some_iff.mp hvalues
      refine .of_forall₂ hcell trivial (List.forall₂_iff_get.mpr ⟨hitems.length_eq, ?_⟩)
      intro k hk hk'
      have hmem := List.get_mem cell.items ⟨k, hk⟩
      exact ih (h.link ⟨cell, hcell, cell.items_subset_links hmem⟩) (hitems.get hk hk')

/-- Looking at a slot gives what it holds, if it holds a value. -/
theorem IsClosed.view_eq_some_iff (h : s.IsClosed slot) :
    s.view slot = some v ↔ s.Holds (fun _ => True) slot v :=
  ⟨h.holds_of_viewTo, fun hv => hv.view_eq⟩

/-! ## Paths -/

lemma isClosed_iterate (h : s.IsClosed slot) {items : List Slot}
    (hitems : s.iterate slot = .ok items) : ∀ item ∈ items, s.IsClosed item := by
  intro item hitem
  unfold iterate at hitems
  split at hitems
  · next hcell =>
    obtain rfl := Except.ok.inj hitems
    exact h.link ⟨_, hcell, hitem⟩
  · next hcell =>
    obtain rfl := Except.ok.inj hitems
    exact h.link ⟨_, hcell, hitem⟩
  · next hlist htuple =>
    obtain ⟨values, hvalues, rfl⟩ := Except.map_eq_ok_iff.mp hitems
    obtain ⟨member, hmember, rfl⟩ := List.mem_map.mp hitem
    cases slot with
    | plain v => exact s.isClosed_plain (Value.height_of_iterate h.covers hvalues hmember)
    | ref i =>
      obtain ⟨cell, hcell⟩ := h.covers.exists_cell
      cases cell with
      | node n =>
        rw [cell?_ref] at hcell
        rw [outline, hcell] at hvalues
        cases hvalues
      | list items => exact absurd hcell (hlist items)
      | tuple items => exact absurd hcell (htuple items)

lemma isClosed_property (h : s.IsClosed slot) {name : String} {found : Slot}
    (hfound : s.property name slot = .ok found) : s.IsClosed found := by
  unfold property at hfound
  split at hfound
  · next found' hattribute =>
    obtain rfl := Except.ok.inj hfound
    obtain ⟨n, hnode, hattribute⟩ := Option.bind_eq_some_iff.mp hattribute
    refine h.link ⟨_, node?_eq_some_iff.mp hnode, ?_⟩
    obtain hfield | ⟨-, hother⟩ := Option.or_eq_some_iff.mp hattribute
    · exact mem_links_of_field? hfield
    · exact List.mem_append_right _ (List.mem_map_of_mem (mem_of_lookup_eq_some hother))
  · obtain ⟨v, hv, rfl⟩ := Except.map_eq_ok_iff.mp hfound
    refine s.isClosed_plain ?_
    cases slot with
    | plain u =>
      have hu : u.height = 0 := h.covers
      cases u with
      | node => cases hu
      | _ => cases hv
    | ref i =>
      obtain ⟨cell, hcell⟩ := h.covers.exists_cell
      rw [cell?_ref] at hcell
      rw [outline, hcell] at hv
      cases cell with
      | node n => exact Value.height_of_property (by simp [Value.height]) hv
      | _ => cases hv

/-! ## Freezing and new cells -/

section growing

variable (h : s.GrowsTo t) (hslot : s.IsClosed slot)

include h hslot

lemma IsClosed.cell?_eq_or : t.cell? slot = s.cell? slot ∨ ∃ n, s.cell? slot = some (.node n) ∧
    t.cell? slot = some (.node { n with frozen := true }) := by
  cases slot with
  | plain v => exact .inl rfl
  | ref i =>
    obtain ⟨cell, hcell⟩ := hslot.covers.exists_cell
    exact h.cell?_eq_or hcell

/-- What is closed stays closed. -/
lemma IsClosed.growsTo : t.IsClosed slot := by
  refine isClosed_of_invariant (p := s.IsClosed) (fun other hother => ?_)
    (fun other target hother hlink => ?_) hslot
  · have hcovers := hother.covers
    cases other with
    | plain v => exact hcovers
    | ref i => exact Nat.lt_of_lt_of_le hcovers h.size_le
  · obtain ⟨cell, hcell, hmem⟩ := hlink
    obtain heq | ⟨n, hs, ht⟩ := hother.cell?_eq_or h
    · exact hother.link ⟨cell, heq.symm.trans hcell, hmem⟩
    · obtain rfl := Option.some.inj (ht.symm.trans hcell)
      exact hother.link ⟨_, hs, hmem⟩

lemma IsClosed.outline_eq : t.outline slot = s.outline slot := by
  cases slot with
  | plain v => rfl
  | ref i =>
    rw [outline, outline, ← cell?_ref, ← cell?_ref]
    obtain heq | ⟨n, hs, ht⟩ := hslot.cell?_eq_or h
    · rw [heq]
    · rw [hs, ht]
      rfl

lemma IsClosed.property_eq (name : String) : t.property name slot = s.property name slot := by
  have hattribute : t.attribute? name slot = s.attribute? name slot := by
    obtain heq | ⟨n, hs, ht⟩ := hslot.cell?_eq_or h
    · rw [attribute?, attribute?, node?, node?, heq]
    · rw [attribute?_node hs, attribute?_node ht]
      rfl
  rw [property, property, hattribute, hslot.outline_eq h]

lemma IsClosed.iterate_eq : t.iterate slot = s.iterate slot := by
  rw [iterate, iterate, hslot.outline_eq h]
  obtain heq | ⟨n, hs, ht⟩ := hslot.cell?_eq_or h
  · rw [heq]
  · rw [hs, ht]

end growing

/-! ## Changing nodes -/

/-- A new cell is closed if all slots in it are. -/
lemma isClosed_push {cell : Cell} (h : ∀ link ∈ cell.links, s.IsClosed link) :
    (s.push cell).2.IsClosed (s.push cell).1 := by
  have hgrows := (isPartOf_push s cell).growsTo
  have hnew := (cell?_push_new s cell).2
  intro other hreaches
  obtain rfl | ⟨link, ⟨cell', hcell', hmem⟩, hreaches⟩ := hreaches.cases_head
  · exact covers_of_cell? hnew
  · obtain rfl := Option.some.inj (hnew.symm.trans hcell')
    exact (h link hmem).growsTo hgrows other hreaches

/-- What is closed stays closed when something that is closed is stored in a node, wherever this
leads. -/
theorem IsClosed.assign (hslot : s.IsClosed slot) (hcontent : s.IsClosed content) {target : Slot}
    {name : String} (hassign : s.assign target name content = .ok t) : t.IsClosed slot := by
  obtain ⟨n, hnode, hn, hname⟩ := exists_node_of_assign hassign
  obtain ⟨t', hassign', hnode', hsize, hkept⟩ := exists_assign hnode hn hname content
  obtain rfl := Except.ok.inj (hassign.symm.trans hassign')
  refine isClosed_of_invariant (p := s.IsClosed) (fun other hother => ?_)
    (fun other link hother hlink => ?_) hslot
  · have hcovers := hother.covers
    cases other with
    | plain v => exact hcovers
    | ref i => exact Nat.lt_of_lt_of_eq hcovers hsize.symm
  · obtain ⟨cell, hcell, hmem⟩ := hlink
    by_cases htarget : other = target
    · subst htarget
      obtain rfl := Option.some.inj (hnode'.symm.trans hcell)
      obtain hold | rfl := n.mem_links_assign hmem
      · exact hother.link ⟨_, hnode, hold⟩
      · exact hcontent
    · exact hother.link ⟨cell, (hkept other htarget).symm.trans hcell, hmem⟩

/-- A copy is closed if the node is, and what is given. -/
lemma IsClosed.copy (h : s.IsClosed slot) {given : List (String × Slot)}
    (hgiven : ∀ entry ∈ given, s.IsClosed entry.2) {copy : Slot}
    (hcopy : s.copyWith slot given = .ok (copy, t)) : t.IsClosed copy := by
  obtain ⟨n, hnode, hpush⟩ := exists_node_of_copyWith hcopy
  have hclosed : (s.push (.node { kind := n.kind, fields := n.fieldsWith given })).2.IsClosed
      (s.push (.node { kind := n.kind, fields := n.fieldsWith given })).1 := by
    refine isClosed_push fun link hlink => ?_
    rw [Cell.isBare_node rfl] at hlink
    obtain hfield | ⟨entry, hentry, rfl⟩ := n.mem_fieldsWith hlink
    · exact h.link ⟨_, hnode, List.mem_append_left _ hfield⟩
    · exact hgiven entry hentry
  rwa [hpush] at hclosed

end Store

namespace Workbench

variable {w : Workbench} {p : Path} {slot : Slot}

def IsClosed (w : Workbench) : Prop := ∀ entry ∈ w.names, w.store.IsClosed entry.2

lemma isClosed_child (h : w.store.IsClosed slot) {key : Key} {target : Slot}
    (htarget : w.child slot key = .ok target) : w.store.IsClosed target := by
  cases key with
  | property name => exact Store.isClosed_property h htarget
  | position i =>
    simp only [child, member] at htarget
    split at htarget
    · cases htarget
    · split at htarget
      · cases htarget
      · next items hitems =>
        generalize (if i < 0 then i + items.length else i) = position at htarget
        split at htarget
        · cases htarget
        · split at htarget
          · next item hitem =>
            obtain rfl := Except.ok.inj htarget
            exact Store.isClosed_iterate h hitems item (List.mem_of_getElem? hitem)
          · cases htarget

/-- What a path leads to is closed. -/
theorem IsClosed.resolve (hw : w.IsClosed) (h : w.resolve p = .ok slot) :
    w.store.IsClosed slot := by
  obtain ⟨name, keys⟩ := p
  unfold Workbench.resolve at h
  split at h
  · next root hroot =>
    have hclosed : w.store.IsClosed root := hw _ (mem_of_lookup_eq_some hroot)
    dsimp only at h
    clear hroot
    induction keys generalizing root with
    | nil =>
      obtain rfl := Except.ok.inj h
      exact hclosed
    | cons key rest ih =>
      rw [List.foldlM_cons] at h
      obtain ⟨next, hnext, h⟩ := Except.bind_eq_ok_iff.mp h
      exact ih next h (isClosed_child hclosed hnext)
  · cases h

/-- A path that something is found at leads to a slot that holds it. -/
lemma IsClosed.exists_holds (hw : w.IsClosed) {v : Value} (h : w.view p = .ok v) :
    ∃ slot, w.resolve p = .ok slot ∧ w.store.Holds (fun _ => True) slot v := by
  obtain ⟨slot, hslot, h⟩ := Except.bind_eq_ok_iff.mp h
  cases hview : w.store.view slot with
  | none =>
    rw [hview] at h
    cases h
  | some u =>
    rw [hview] at h
    obtain rfl := Except.ok.inj h
    exact ⟨slot, hslot, (hw.resolve hslot).view_eq_some_iff.mp hview⟩

/-- A path leads where it did, whatever is frozen and whatever cells are new. -/
theorem IsClosed.resolve_eq (hw : w.IsClosed) {t : Store} (h : w.store.GrowsTo t) (p : Path) :
    Workbench.resolve ⟨t, w.names⟩ p = w.resolve p := by
  have hchild : ∀ slot key, w.store.IsClosed slot →
      Workbench.child ⟨t, w.names⟩ slot key = w.child slot key := by
    intro slot key hslot
    cases key with
    | property name => exact hslot.property_eq h name
    | position i => simp only [child, member, hslot.outline_eq h, hslot.iterate_eq h]
  obtain ⟨name, keys⟩ := p
  simp only [Workbench.resolve]
  split
  · next root hroot =>
    have hclosed : w.store.IsClosed root := hw _ (mem_of_lookup_eq_some hroot)
    clear hroot
    induction keys generalizing root with
    | nil => rfl
    | cons key rest ih =>
      rw [List.foldlM_cons, List.foldlM_cons, hchild root key hclosed]
      cases hnext : w.child root key with
      | error e => rfl
      | ok next => exact ih next (isClosed_child hclosed hnext)
  · rfl

/-! ## Steps -/

lemma IsClosed.bind (hw : w.IsClosed) {t : Store} (h : w.store.GrowsTo t) (hslot : t.IsClosed slot)
    (name : String) : (w.bind name slot t).IsClosed :=
  List.forall_mem_cons.mpr ⟨hslot, fun entry hentry => (hw entry hentry).growsTo h⟩

lemma IsClosed.finish (hw : w.IsClosed) {r : Except Fault Workbench}
    (h : ∀ after, r = .ok after → after.IsClosed) : (w.finish r).2.IsClosed := by
  cases r with
  | error e => exact hw
  | ok after => exact h after rfl

lemma IsClosed.take (hw : w.IsClosed) {s t : Store} (hs : w.store.IsPartOf s) {given : Given}
    (h : w.take s given = .ok (slot, t)) : t.IsClosed slot := by
  cases given with
  | value v =>
    obtain ⟨rfl, rfl⟩ := Prod.mk.inj (Except.ok.inj h)
    exact (List.forall₂_cons.mp ((s.inserts_insert v).holds _ fun _ _ _ h => h)).1.isClosed
  | path p =>
    obtain ⟨slot', hslot, heq⟩ := Except.map_eq_ok_iff.mp h
    obtain ⟨rfl, rfl⟩ := Prod.mk.inj heq
    exact (hw.resolve hslot).growsTo hs.growsTo

lemma IsClosed.takeAll (hw : w.IsClosed) {s t : Store} (hs : w.store.IsPartOf s)
    {given : List Given} {slots : List Slot} (h : w.takeAll s given = .ok (slots, t)) :
    ∀ slot ∈ slots, t.IsClosed slot := by
  induction given generalizing s slots with
  | nil =>
    obtain ⟨rfl, rfl⟩ := Prod.mk.inj (Except.ok.inj h)
    exact nofun
  | cons first rest ih =>
    obtain ⟨⟨slot, u⟩, hfirst, h⟩ := Except.bind_eq_ok_iff.mp h
    obtain ⟨⟨slots', u'⟩, hrest, h⟩ := Except.bind_eq_ok_iff.mp h
    obtain ⟨rfl, rfl⟩ := Prod.mk.inj (Except.ok.inj h)
    have hpart := (takes_take hfirst).isPartOf
    exact List.forall_mem_cons.mpr
      ⟨(hw.take hs hfirst).growsTo (takes_takeAll hrest).isPartOf.growsTo,
        ih (hs.trans hpart) hrest⟩

lemma IsClosed.gather (hw : w.IsClosed) {name : String} {cell : List Slot → Cell}
    (hcell : ∀ slots, (cell slots).links = slots) {members : List Given} {after : Workbench}
    (h : w.gather name cell members = .ok after) : after.IsClosed := by
  obtain ⟨⟨slots, t⟩, htake, h⟩ := Except.bind_eq_ok_iff.mp h
  obtain rfl := Except.ok.inj h
  have hclosed := hw.takeAll (fun _ _ => id) htake
  have hpart := (takes_takeAll htake).isPartOf.trans (Store.isPartOf_push t (cell slots))
  exact hw.bind hpart.growsTo (Store.isClosed_push (by rwa [hcell])) name

/-- No step makes a name lead outside the store. -/
theorem isClosed_step (hw : w.IsClosed) (step : Step) : (w.step step).2.IsClosed := by
  cases step with
  | parse name format =>
    refine hw.finish fun after h => ?_
    obtain ⟨text, -, h⟩ := Except.bind_eq_ok_iff.mp h
    obtain ⟨f, hparse, h⟩ := Except.bind_eq_ok_iff.mp h
    obtain ⟨⟨root, store⟩, hinsert, h⟩ := Except.bind_eq_ok_iff.mp h
    obtain rfl := Except.ok.inj h
    obtain ⟨root', store', hinsert', hpart, hholds⟩ :=
      w.store.exists_insertFormat (Format.isComparable_of_parse hparse)
    obtain ⟨rfl, rfl⟩ := Prod.mk.inj (Except.ok.inj (hinsert.symm.trans hinsert'))
    refine hw.bind hpart.growsTo (Store.Holds.isClosed (hholds.mono ?_)) name
    exact fun _ cell hcell hfinished => ⟨cell, hcell, hfinished.isBare, rfl, rfl⟩
  | make name v =>
    have htake : w.take w.store (.value v) = .ok (w.store.insert v) := rfl
    exact hw.bind (w.store.inserts_insert v).isPartOf.growsTo (hw.take (fun _ _ => id) htake) name
  | list name members => exact hw.finish fun after h => hw.gather (fun _ => rfl) h
  | tuple name members => exact hw.finish fun after h => hw.gather (fun _ => rfl) h
  | assign path name given =>
    refine hw.finish fun after h => ?_
    obtain ⟨⟨content, s⟩, htake, h⟩ := Except.bind_eq_ok_iff.mp h
    obtain ⟨slot, -, h⟩ := Except.bind_eq_ok_iff.mp h
    obtain ⟨store, hassign, h⟩ := Except.bind_eq_ok_iff.mp h
    obtain rfl := Except.ok.inj h
    have hgrows := (takes_take htake).isPartOf.growsTo
    exact fun entry hentry =>
      ((hw entry hentry).growsTo hgrows).assign (hw.take (fun _ _ => id) htake) hassign
  | freeze path =>
    rw [step, freeze]
    cases w.resolve path with
    | error e => exact hw
    | ok slot =>
      exact fun entry hentry => (hw entry hentry).growsTo (w.store.freezesTo_freeze slot).growsTo
  | copy path name given =>
    refine hw.finish fun after h => ?_
    obtain ⟨slot, hslot, h⟩ := Except.bind_eq_ok_iff.mp h
    obtain ⟨⟨slots, s⟩, htake, h⟩ := Except.bind_eq_ok_iff.mp h
    obtain ⟨⟨copy, store⟩, hcopy, h⟩ := Except.bind_eq_ok_iff.mp h
    obtain rfl := Except.ok.inj h
    have hpart := (takes_takeAll htake).isPartOf
    have hclosed := hw.takeAll (fun _ _ => id) htake
    refine hw.bind (hpart.trans (Store.isPartOf_copyWith hcopy)).growsTo ?_ name
    exact ((hw.resolve hslot).growsTo hpart.growsTo).copy
      (fun entry hentry => hclosed _ (List.of_mem_zip hentry).2) hcopy
  | ask q => exact hw

/-- No steps make a name lead outside the store. -/
theorem isClosed_run (hw : w.IsClosed) (steps : List Step) :
    ∀ w' ∈ w :: (w.run steps).map Prod.snd, w'.IsClosed := by
  induction steps generalizing w with
  | nil => exact List.forall_mem_singleton.mpr hw
  | cons step rest ih =>
    exact List.forall_mem_cons.mpr ⟨hw, ih (isClosed_step hw step)⟩

end Workbench

end FormatCode
