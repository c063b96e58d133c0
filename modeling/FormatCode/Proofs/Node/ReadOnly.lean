import FormatCode.Proofs.Format.Joined
import FormatCode.Proofs.Node.Making
import FormatCode.Proofs.Node.Steps

/-!
# Formats are read-only

No step of a workbench changes a cell that is sealed. Whether a node is frozen changes by freezing
it, or by storing the mark of frozen nodes in it, and by nothing else. All nodes that a format
consists of are frozen from the start, and so a format stays as it was read, whatever is done with
it, with its nodes, or with copies of them. The copies share nodes with the format, but may be
changed until they are frozen themselves.

## Main definitions

* `Workbench.StepsAt` — what the steps on a node at a path do.

## Main statements

* `Workbench.protects_step`, `Workbench.protects_run` — a step, and steps one after the other, do
  not change what is sealed.
* `Workbench.exists_node_step` — which steps change whether a node is frozen.
* `Workbench.stepsAt` — what becomes of storing something in a node, freezing and copying it.
* `Workbench.exists_step_parse` — what becomes of the nodes of a format, and of copies.
-/

namespace FormatCode

namespace Workbench

variable {w : Workbench}

/-! ## Steps -/

lemma store_finish {w : Workbench} {r : Except Fault Workbench} {R : Store → Prop}
    (hrefl : R w.store) (h : ∀ after, r = .ok after → R after.store) : R (w.finish r).2.store := by
  cases r with
  | error e => exact hrefl
  | ok after => exact h after rfl

lemma isPartOf_gather {name : String} {cell : List Slot → Cell} {members : List Given}
    {after : Workbench} (h : w.gather name cell members = .ok after) :
    w.store.IsPartOf after.store := by
  obtain ⟨⟨slots, t⟩, htake, h⟩ := Except.bind_eq_ok_iff.mp h
  obtain rfl := Except.ok.inj h
  exact (takes_takeAll htake).isPartOf.trans (Store.isPartOf_push t _)

/-- All cells are kept by the steps that neither store something in a node nor freeze one. -/
lemma isPartOf_step (step : Step) (hassign : ∀ path name given, step ≠ .assign path name given)
    (hfreeze : ∀ path, step ≠ .freeze path) : w.store.IsPartOf (w.step step).2.store := by
  have hrefl : w.store.IsPartOf w.store := fun _ _ => id
  cases step with
  | parse name format =>
    refine store_finish hrefl fun after h => ?_
    obtain ⟨text, -, h⟩ := Except.bind_eq_ok_iff.mp h
    obtain ⟨f, hparse, h⟩ := Except.bind_eq_ok_iff.mp h
    obtain ⟨⟨slot, store⟩, hinsert, h⟩ := Except.bind_eq_ok_iff.mp h
    obtain rfl := Except.ok.inj h
    obtain ⟨root, t, hinsert', hpart, -⟩ :=
      w.store.exists_insertFormat (Format.isComparable_of_parse hparse)
    obtain ⟨-, rfl⟩ := Prod.mk.inj (Except.ok.inj (hinsert.symm.trans hinsert'))
    exact hpart
  | make name v => exact (w.store.inserts_insert v).isPartOf
  | list name members => exact store_finish hrefl fun after h => isPartOf_gather h
  | tuple name members => exact store_finish hrefl fun after h => isPartOf_gather h
  | assign path name given => exact absurd rfl (hassign path name given)
  | freeze path => exact absurd rfl (hfreeze path)
  | copy path name given =>
    refine store_finish hrefl fun after h => ?_
    obtain ⟨slot, -, h⟩ := Except.bind_eq_ok_iff.mp h
    obtain ⟨⟨slots, s⟩, htake, h⟩ := Except.bind_eq_ok_iff.mp h
    obtain ⟨⟨copy, store⟩, hcopy, h⟩ := Except.bind_eq_ok_iff.mp h
    obtain rfl := Except.ok.inj h
    exact (takes_takeAll htake).isPartOf.trans (Store.isPartOf_copyWith hcopy)
  | ask q => exact hrefl

lemma freezesTo_step (path : Path) : w.store.FreezesTo (w.step (.freeze path)).2.store := by
  rw [step, freeze]
  cases w.resolve path with
  | error e => exact .refl w.store
  | ok slot => exact w.store.freezesTo_freeze slot

/-- Something is stored in one node, after what is new. -/
lemma exists_store_of_assign {path : Path} {name : String} {given : Given} {after : Workbench}
    (h : w.assign path name given = .ok after) : ∃ s slot content, w.store.IsPartOf s ∧
      s.assign slot name content = .ok after.store := by
  obtain ⟨⟨content, s⟩, htake, h⟩ := Except.bind_eq_ok_iff.mp h
  obtain ⟨slot, -, h⟩ := Except.bind_eq_ok_iff.mp h
  obtain ⟨t, hassign, h⟩ := Except.bind_eq_ok_iff.mp h
  obtain rfl := Except.ok.inj h
  exact ⟨s, slot, content, (takes_take htake).isPartOf, hassign⟩

/-- No step changes what is sealed. -/
theorem protects_step (w : Workbench) (step : Step) : w.store.Protects (w.step step).2.store := by
  cases step with
  | assign path name given =>
    refine store_finish (.refl w.store) fun after h => ?_
    obtain ⟨s, slot, content, hpart, hassign⟩ := exists_store_of_assign h
    exact hpart.protects.trans (Store.protects_assign hassign)
  | freeze path => exact (freezesTo_step path).protects
  | _ => exact (isPartOf_step _ (by simp) (by simp)).protects

/-- No steps change what is sealed. -/
theorem protects_run (w : Workbench) (steps : List Step) :
    ∀ w' ∈ w :: (w.run steps).map Prod.snd, w.store.Protects w'.store := by
  induction steps generalizing w with
  | nil => exact List.forall_mem_singleton.mpr (.refl w.store)
  | cons step rest ih =>
    refine List.forall_mem_cons.mpr ⟨.refl w.store, fun w' hw' => ?_⟩
    exact (w.protects_step step).trans (ih _ w' hw')

/-- Whether a node is frozen is changed by freezing, and by storing the mark of frozen nodes, and by
nothing else. -/
theorem exists_node_step {slot : Slot} {n : Node} (hcell : w.store.cell? slot = some (.node n))
    (step : Step) (hfreeze : ∀ path, step ≠ .freeze path)
    (hmark : ∀ path given, step ≠ .assign path Node.frozenMark given) :
    ∃ m, (w.step step).2.store.cell? slot = some (.node m) ∧ m.kind = n.kind ∧
      m.frozen = n.frozen := by
  cases step with
  | assign path name given =>
    refine store_finish (R := fun t => ∃ m, t.cell? slot = some (.node m) ∧ m.kind = n.kind ∧
      m.frozen = n.frozen) ⟨n, hcell, rfl, rfl⟩ fun after h => ?_
    obtain ⟨s, target, content, hpart, hassign⟩ := exists_store_of_assign h
    exact Store.exists_node_assign hassign (hpart _ _ hcell)
      fun hname => hmark path given (hname ▸ rfl)
  | freeze path => exact absurd rfl (hfreeze path)
  | _ => exact ⟨n, isPartOf_step _ (by simp) (by simp) _ _ hcell, rfl, rfl⟩

/-! ## Nodes at paths -/

structure StepsAt (w : Workbench) (path : Path) (slot : Slot) (n : Node) : Prop where
  assign_frozen : n.frozen = true → ∀ name given, w.Has given →
    w.step (.assign path name given) = (.error (.readOnly n.kind.name), w)
  assign : n.frozen = false → ∀ name given, w.Has given →
    name ∈ n.kind.fieldNames ∨ n.kind.owns name = false →
    ∃ t, w.step (.assign path name given) = (.ok .done, ⟨t, w.names⟩) ∧
      w.IsAssigned slot n name given t
  copy : ∀ name given, (∀ entry ∈ given, w.Has entry.2) →
    (∀ entry ∈ given, entry.1 ∈ n.kind.fieldNames) →
    ∃ copy t, w.step (.copy path name given) = (.ok .done, w.bind name copy t) ∧
      w.IsCopy n given t copy
  copy_error : ∀ name given, (∀ entry ∈ given, w.Has entry.2) →
    (∃ entry ∈ given, entry.1 ∉ n.kind.fieldNames) →
    ∃ misuse, w.step (.copy path name given) = (.error (.undefined misuse), w)
  /-- What is frozen is the node, and with a section its condition and its parts. -/
  freeze : ∀ after, w.step (.freeze path) = (.ok .done, after) →
    after.names = w.names ∧ w.store.Marks (w.store.FreezesWith slot) after.store
  exists_freeze : w.store.HasParts n →
    (∀ other, w.store.HasCompanion slot other → w.store.IsLone other) →
    ∃ after, w.step (.freeze path) = (.ok .done, after)

theorem stepsAt {path : Path} {slot : Slot} {n : Node} (hslot : w.resolve path = .ok slot)
    (hcell : w.store.cell? slot = some (.node n)) : w.StepsAt path slot n where
  assign_frozen hn name _ hgiven := step_assign_frozen hslot hcell hn name hgiven
  assign hn _ _ hgiven hname :=
    exists_step_assign hslot hcell hn (hname.elim NodeKind.owns_eq_false_of_mem id) hgiven
  copy name _ hgiven hnames := exists_step_copy hslot hcell name hnames hgiven
  copy_error name _ hgiven := fun ⟨_, hentry, hname⟩ =>
    exists_step_copy_error hslot hcell name hgiven hentry hname
  freeze _ h := marks_step_freeze hslot h
  exists_freeze := exists_step_freeze hslot hcell

/-! ## Formats -/

/-- What a format consists of can be reached only through nodes that are frozen and have all
fields. -/
lemma isFinished_of_reaches {s : Store} {root slot : Slot} {v : Value}
    (h : s.Holds Cell.IsFinished root v) (hreaches : s.Reaches root slot) {n : Node}
    (hcell : s.cell? slot = some (.node n)) :
    n.frozen = true ∧ ∀ name ∈ n.kind.fieldNames, (n.field? name).isSome := by
  obtain ⟨u, hu⟩ := h.exists_of_reaches (fun _ h => h.isBare) hreaches
  obtain ⟨hfinished, -⟩ := hu.exists_cell hcell
  exact ⟨hfinished.isSealed, fun name hname => isSome_lookup_zip (hfinished.length_eq n rfl) hname⟩

/-- A format whose text can be read is bound to a name, and whatever is done afterwards, its fields
are as they were read at every depth, and all nodes that can be reached from it are frozen. On these
nodes, on copies, and on all others, steps do what they do on nodes that are frozen or not. None of
them but a freezing one, or one that stores the mark of frozen nodes, changes whether a node is
frozen, and a node that is frozen stays as it is. -/
theorem exists_step_parse {format : String} {f : Format} (hparse : Format.parse format = .ok f)
    (w : Workbench) (name : String) :
    ∃ root store, w.step (.parse name (.text format)) = (.ok .done, w.bind name root store) ∧
      ∀ later, ∀ w' ∈ w.bind name root store :: ((w.bind name root store).run later).map Prod.snd,
        w'.store.view root = some f.toValue ∧
        (∀ slot n, w'.store.Reaches root slot → w'.store.cell? slot = some (.node n) →
          n.frozen = true ∧ ∀ name ∈ n.kind.fieldNames, (n.field? name).isSome) ∧
        (∀ path slot n, w'.resolve path = .ok slot → w'.store.cell? slot = some (.node n) →
          w'.StepsAt path slot n) ∧
        (∀ slot n, w'.store.cell? slot = some (.node n) → ∀ step, (∀ p, step ≠ .freeze p) →
          (∀ p given, step ≠ .assign p Node.frozenMark given) →
          ∃ m, (w'.step step).2.store.cell? slot = some (.node m) ∧ m.kind = n.kind ∧
            m.frozen = n.frozen) ∧
        ∀ slot n, w'.store.cell? slot = some (.node n) → n.frozen = true →
          ∀ more, ∀ w'' ∈ (w'.run more).map Prod.snd, w''.store.cell? slot = some (.node n) := by
  obtain ⟨root, store, hinsert, -, hholds⟩ :=
    w.store.exists_insertFormat (Format.isComparable_of_parse hparse)
  refine ⟨root, store, ?_, fun later w' hw' => ?_⟩
  · simp only [step, Value.toText, hparse, hinsert, finish, Bind.bind, Except.bind, pure,
      Except.pure]
  -- The nodes are finished when the format is made, and no step touches them afterwards.
  have hholds' := (protects_run _ later w' hw').holds (fun _ h => h.isSealed) hholds
  refine ⟨hholds'.view_eq,
    fun slot n hreaches hcell => isFinished_of_reaches hholds' hreaches hcell,
    fun path slot n hslot hcell => stepsAt hslot hcell,
    fun slot n hcell step hfreeze hmark => exists_node_step hcell step hfreeze hmark, ?_⟩
  intro slot n hcell hn more w'' hw''
  exact (protects_run w' more w'' (List.mem_cons_of_mem _ hw'')).cell?_eq slot _ hcell hn

/-- A copy of the section of a format shares the condition, which is given for another field too and
cannot be changed through the copy. The copy can, until it is frozen. -/
theorem exists_step_parse_copied :
    ∃ w w' w'' : Workbench, ({} : Workbench).step (.parse "f" (.text "[>5]0")) = (.ok .done, w) ∧
      w.step (.copy ⟨"f", [.property "sections", .position 0]⟩ "copy"
        [("color", .path ⟨"f", [.property "sections", .position 0, .property "condition"]⟩)]) =
          (.ok .done, w') ∧
      w'.step (.assign ⟨"copy", [.property "color"]⟩ "threshold" (.value (.int 9))) =
        (.error (.readOnly "Condition"), w') ∧
      (∃ t, w'.step (.assign ⟨"copy", []⟩ "color"
        (.path ⟨"f", [.property "sections", .position 0]⟩)) = (.ok .done, ⟨t, w'.names⟩)) ∧
      w'.step (.freeze ⟨"copy", []⟩) = (.ok .done, w'') ∧
      w''.step (.assign ⟨"copy", []⟩ "color" (.value (.text "Blue"))) =
        (.error (.readOnly "Section"), w'') := by
  have hparse : Format.parse "[>5]0" = .ok ⟨[
      { condition := some ⟨">", .int 5⟩, parts := [.placeholder .zero] }]⟩ := rfl
  have hinsert : Store.insertFormat {} ⟨[
      { condition := some ⟨">", .int 5⟩, parts := [.placeholder .zero] }]⟩ =
    .ok (.ref 5, ⟨#[
      .node ⟨.condition, [.plain (.text ">"), .plain (.int 5)], [], true⟩,
      .node ⟨.zeroDigit, [], [], true⟩,
      .tuple [.ref 1],
      .node ⟨.formatSection, [.ref 0, .plain .null, .ref 2, .plain (.int 0), .plain (.bool false),
        .plain (.int 1), .plain .null], [], true⟩,
      .tuple [.ref 3],
      .node ⟨.format, [.ref 4], [], true⟩]⟩) := rfl
  obtain ⟨root, store, hstep, hlater⟩ := exists_step_parse hparse {} "f"
  have hbound := hstep
  simp only [step, Value.toText, hparse, hinsert, finish, Bind.bind, Except.bind, pure, Except.pure,
    Workbench.bind, Prod.mk.injEq, true_and, Workbench.mk.injEq, List.cons.injEq,
    and_true] at hbound
  obtain ⟨rfl, rfl⟩ := hbound
  have hsteps := hlater [
    .copy ⟨"f", [.property "sections", .position 0]⟩ "copy"
      [("color", .path ⟨"f", [.property "sections", .position 0, .property "condition"]⟩)],
    .freeze ⟨"copy", []⟩]
  obtain ⟨-, -, hcopied, -, -⟩ := hsteps _ (List.mem_cons_of_mem _ (List.mem_cons_self ..))
  obtain ⟨-, -, hfrozen, -, -⟩ := hsteps _
    (List.mem_cons_of_mem _ (List.mem_cons_of_mem _ (List.mem_cons_self ..)))
  refine ⟨_, _, _, hstep, rfl, ?_, ?_, rfl, ?_⟩
  · exact (hcopied ⟨"copy", [.property "color"]⟩ (.ref 0) _ rfl rfl).assign_frozen rfl "threshold"
      (.value (.int 9)) trivial
  · obtain ⟨t, ht, -⟩ := (hcopied ⟨"copy", []⟩ (.ref 6) _ rfl rfl).assign rfl "color"
      (.path ⟨"f", [.property "sections", .position 0]⟩) ⟨.ref 3, rfl⟩ (.inl (by decide))
    exact ⟨t, ht⟩
  · exact (hfrozen ⟨"copy", []⟩ (.ref 6) _ rfl rfl).assign_frozen rfl "color"
      (.value (.text "Blue")) trivial

end Workbench

end FormatCode
