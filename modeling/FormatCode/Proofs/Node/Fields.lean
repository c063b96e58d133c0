import FormatCode.Proofs.Node.Freezing

/-!
# What is stored in a node

Something is stored in a node that is not frozen, in a field or under another name, and no other
cell changes. A copy is a new node that is not frozen. It shares with the node the fields that are
not given for it.

## Main definitions

* `NodeKind.withGiven` — the values of a copy.

## Main statements

* `Node.attribute?_assign`, `Node.attribute?_assign_of_ne`, `Node.frozen_assign` — what is stored in
  a node.
* `NodeKind.argumentFault?_eq_none_iff` — the names that may be given for a copy.
* `Store.exists_assign`, `Store.assign_frozen` — in which nodes something is stored, under which
  names.
* `Store.copyWith_node`, `Store.holds_copy` — a node is copied, and what the copy holds.
-/

namespace FormatCode

/-! ## Fields by name -/

section fields

variable {α β : Type}

lemma isSome_lookup_zip {names : List String} {fields : List α} (h : fields.length = names.length)
    {name : String} (hname : name ∈ names) : ((names.zip fields).lookup name).isSome := by
  induction names generalizing fields with
  | nil => cases hname
  | cons first rest ih =>
    cases fields with
    | nil => cases h
    | cons field fields =>
      rw [List.zip_cons_cons, List.lookup_cons]
      split
      · rfl
      · next hne =>
        refine ih (Nat.succ.inj h) ((List.mem_cons.mp hname).resolve_left fun heq => ?_)
        rw [heq, beq_self_eq_true] at hne
        cases hne

/-- A field of a node whose fields are replaced, each depending on its name and what was there. -/
lemma lookup_zip_map (names : List String) (fields : List α) (g : String × α → β) (name : String) :
    (names.zip ((names.zip fields).map g)).lookup name =
      ((names.zip fields).lookup name).map fun field => g (name, field) := by
  induction names generalizing fields with
  | nil => rfl
  | cons first rest ih =>
    cases fields with
    | nil => rfl
    | cons field fields =>
      simp only [List.zip_cons_cons, List.map_cons, List.lookup_cons]
      split
      · next heq =>
        rw [beq_iff_eq.mp heq]
        rfl
      · exact ih fields

/-- The field of the given name is the only one that is set. -/
lemma lookup_zip_set (names : List String) (fields : List α) (name : String) (field : α)
    (other : String) :
    (names.zip (fields.set (names.idxOf name) field)).lookup other =
      ((names.zip fields).lookup other).map fun old => if other = name then field else old := by
  induction names generalizing fields with
  | nil => rfl
  | cons first rest ih =>
    cases fields with
    | nil => rfl
    | cons old fields =>
      by_cases hfirst : first = name
      · subst hfirst
        rw [List.idxOf_cons_self, List.set_cons_zero, List.zip_cons_cons, List.zip_cons_cons,
          List.lookup_cons, List.lookup_cons]
        by_cases hother : other = first
        · simp [hother]
        · have hne : (other == first) = false := beq_eq_false_iff_ne.mpr hother
          simp [hne, hother]
      · rw [List.idxOf_cons_ne _ hfirst, List.set_cons_succ, List.zip_cons_cons,
          List.zip_cons_cons, List.lookup_cons, List.lookup_cons, ih]
        split
        · next heq =>
          rw [beq_iff_eq.mp heq, Option.map_some, if_neg hfirst]
        · rfl

/-- Where no two fields have one name, the field of a name is the one that stands beside it. -/
lemma mem_zip_iff {names : List String} (h : names.Nodup) {fields : List α} {name : String}
    {field : α} :
    (name, field) ∈ names.zip fields ↔ (names.zip fields).lookup name = some field := by
  induction names generalizing fields with
  | nil => simp
  | cons first rest ih =>
    cases fields with
    | nil => simp
    | cons old fields =>
      rw [List.nodup_cons] at h
      rw [List.zip_cons_cons, List.mem_cons, List.lookup_cons, Prod.mk.injEq, ih h.2]
      split
      · next heq =>
        obtain rfl := beq_iff_eq.mp heq
        have hnone : (rest.zip fields).lookup name ≠ some field := fun hfield =>
          h.1 (List.of_mem_zip ((ih h.2).mpr hfield)).1
        simp [hnone, eq_comm]
      · next hne =>
        simp [beq_eq_false_iff_ne.mp hne]

lemma lookup_singleton_eq_some_iff {key name : String} {a b : α} :
    [(key, a)].lookup name = some b ↔ name = key ∧ a = b := by
  rw [List.lookup_cons]
  split
  · next heq => simp [beq_iff_eq.mp heq]
  · next hne => simp [beq_eq_false_iff_ne.mp hne]

/-- Beside their names, related fields are related. -/
lemma forall₂_zip {R : α → β → Prop} {fields : List α} {others : List β}
    (h : List.Forall₂ R fields others) (names : List String) :
    List.Forall₂ (fun entry entry' => entry.1 = entry'.1 ∧ R entry.2 entry'.2) (names.zip fields)
      (names.zip others) := by
  induction h generalizing names with
  | nil => simp
  | cons hfirst _ ih =>
    cases names with
    | nil => exact .nil
    | cons first rest => exact .cons ⟨rfl, hfirst⟩ (ih rest)

/-- What stands beside a name in two lists of related entries is related, or missing in both. -/
lemma lookup_forall₂ {R : α → β → Prop} {entries : List (String × α)} {others : List (String × β)}
    (h : List.Forall₂ (fun entry entry' => entry.1 = entry'.1 ∧ R entry.2 entry'.2) entries others)
    (name : String) : Option.Rel R (entries.lookup name) (others.lookup name) := by
  induction h with
  | nil => exact .none
  | @cons entry entry' _ _ hfirst _ ih =>
    rw [List.lookup_cons, List.lookup_cons, ← hfirst.1]
    split
    · exact .some hfirst.2
    · exact ih

/-- Entries where what is given by name is replaced by what it is related to. -/
lemma forall₂_zip_names {R : β → α → Prop} {given : List (String × α)} {news : List β}
    (h : List.Forall₂ R news (given.map (·.2))) :
    List.Forall₂ (fun entry entry' => entry.1 = entry'.1 ∧ R entry.2 entry'.2)
      ((given.map (·.1)).zip news) given := by
  have hentries := forall₂_zip h (given.map (·.1))
  have hgiven : given = (given.map (·.1)).zip (given.map (·.2)) := List.zip_of_prod rfl rfl
  rwa [← hgiven] at hentries

lemma map_fst_eq_of_forall₂ {R : α → β → Prop} {entries : List (String × α)}
    {others : List (String × β)}
    (h : List.Forall₂ (fun entry entry' => entry.1 = entry'.1 ∧ R entry.2 entry'.2) entries
      others) : entries.map (·.1) = others.map (·.1) := by
  induction h with
  | nil => rfl
  | cons hfirst _ ih => rw [List.map_cons, List.map_cons, hfirst.1, ih]

end fields

def NodeKind.withGiven (kind : NodeKind) (given : List (String × Value)) (values : List Value) :
    List Value :=
  (kind.fieldNames.zip values).map fun entry => (given.lookup entry.1).getD entry.2

/-! ## What is stored in a node -/

namespace Node

lemma kind_assign (n : Node) (name : String) (slot : Slot) (b : Bool) :
    (n.assign name slot b).kind = n.kind := by
  unfold assign
  split
  · rfl
  · split <;> rfl

/-- What is stored in a node by another name is as it was. -/
lemma attribute?_assign_of_ne (n : Node) {name other : String} (h : other ≠ name) (slot : Slot)
    (b : Bool) : (n.assign name slot b).attribute? other = n.attribute? other := by
  unfold assign
  split
  · rw [attribute?, attribute?, field?, lookup_zip_set]
    simp [h, field?]
  · split
    · rfl
    · simp [attribute?, field?, List.lookup_cons, beq_eq_false_iff_ne.mpr h]

/-- A field of a node is set by its name. -/
lemma field?_assign (n : Node) {name : String} (h : (n.field? name).isSome) (slot : Slot)
    (b : Bool) :
    (n.assign name slot b).field? name = some slot := by
  obtain ⟨old, hold⟩ := Option.isSome_iff_exists.mp h
  rw [assign, if_pos h]
  rw [field?] at hold
  simp [field?, lookup_zip_set, hold]

/-- The fields of a node by other names are as they were. -/
lemma field?_assign_of_ne (n : Node) {name other : String} (h : other ≠ name) (slot : Slot)
    (b : Bool) : (n.assign name slot b).field? other = n.field? other := by
  unfold assign
  split
  · simp [field?, lookup_zip_set, h]
  · split <;> rfl

/-- What is stored in a node by name is found by the name, unless it marks the node as frozen. -/
lemma attribute?_assign (n : Node) {name : String} (h : name ≠ frozenMark) (slot : Slot)
    (b : Bool) :
    (n.assign name slot b).attribute? name = some slot := by
  unfold assign
  split
  · next hfield =>
    obtain ⟨old, hold⟩ := Option.isSome_iff_exists.mp hfield
    rw [field?] at hold
    simp [attribute?, field?, lookup_zip_set, hold]
  · next hfield =>
    rw [Option.not_isSome_iff_eq_none] at hfield
    rw [attribute?]
    simp only [field?] at hfield ⊢
    simp [hfield]

lemma frozenMark_notMem (kind : NodeKind) : frozenMark ∉ kind.fieldNames := by
  cases kind <;> decide

lemma field?_frozenMark (n : Node) : n.field? frozenMark = none := by
  rw [field?, List.lookup_eq_none_iff]
  intro entry hentry
  rw [bne_iff_ne]
  intro heq
  exact frozenMark_notMem n.kind (heq ▸ (List.of_mem_zip hentry).1)

/-- The mark of frozen nodes is set under its own name only. -/
lemma frozen_assign (n : Node) (name : String) (slot : Slot) (b : Bool) :
    (n.assign name slot b).frozen = if name = frozenMark then b else n.frozen := by
  unfold assign
  split
  · next hfield =>
    rw [if_neg]
    rintro rfl
    rw [field?_frozenMark] at hfield
    cases hfield
  · split <;> rfl

/-- What can be found in a node after something is stored in it. -/
lemma mem_links_assign (n : Node) {name : String} {slot link : Slot} {b : Bool}
    (h : link ∈ (Cell.node (n.assign name slot b)).links) :
    link ∈ (Cell.node n).links ∨ link = slot := by
  unfold assign at h
  split at h
  · obtain h | h := List.mem_append.mp h
    · exact (List.mem_or_eq_of_mem_set h).imp (List.mem_append_left _) id
    · exact .inl (List.mem_append_right _ h)
  · split at h
    · exact .inl h
    · simp only [Cell.links, List.map_cons, List.mem_append, List.mem_cons] at h ⊢
      tauto

/-- A field of a copy is given, or a field of the node. -/
lemma mem_fieldsWith (n : Node) {given : List (String × Slot)} {field : Slot}
    (h : field ∈ n.fieldsWith given) : field ∈ n.fields ∨ ∃ entry ∈ given, entry.2 = field := by
  obtain ⟨⟨name, old⟩, hmem, rfl⟩ := List.mem_map.mp h
  dsimp only
  cases hnew : given.lookup name with
  | none => exact .inl (List.of_mem_zip hmem).2
  | some new => exact .inr ⟨_, mem_of_lookup_eq_some hnew, rfl⟩

/-- A field of a copy is given, or the field of the node. -/
lemma field?_copy (n : Node) (given : List (String × Slot)) (name : String) :
    ({ kind := n.kind, fields := n.fieldsWith given } : Node).field? name =
      (n.field? name).map fun field => (given.lookup name).getD field :=
  lookup_zip_map n.kind.fieldNames n.fields _ name

end Node

/-- The fields of a node are its own. -/
lemma NodeKind.owns_eq_false_of_mem {kind : NodeKind} {name : String} (h : name ∈ kind.fieldNames) :
    kind.owns name = false := by
  revert name
  cases kind <;> decide

/-- A copy is made if the names given are those of fields. -/
lemma NodeKind.argumentFault?_eq_none_iff {kind : NodeKind} {names : List String} :
    kind.argumentFault? names = none ↔ ∀ name ∈ names, name ∈ kind.fieldNames := by
  have hself : "self" ∉ kind.fieldNames := by cases kind <;> decide
  unfold argumentFault?
  split
  · next h =>
    simp only [reduceCtorEq, false_iff]
    exact fun hnames => hself (hnames _ (List.contains_iff_mem.mp h))
  · rw [Option.map_eq_none_iff, List.find?_eq_none]
    simp

/-- The fault of a copy with other names given. -/
lemma NodeKind.exists_argumentFault? {kind : NodeKind} {names : List String} {name : String}
    (hname : name ∈ names) (h : name ∉ kind.fieldNames) :
    ∃ misuse, kind.argumentFault? names = some (.undefined misuse) := by
  cases hfault : kind.argumentFault? names with
  | none => exact absurd (argumentFault?_eq_none_iff.mp hfault name hname) h
  | some e =>
    unfold argumentFault? at hfault
    split at hfault
    · obtain rfl := Option.some.inj hfault
      exact ⟨_, rfl⟩
    · obtain ⟨_, -, rfl⟩ := Option.map_eq_some_iff.mp hfault
      exact ⟨_, rfl⟩

namespace Store

variable {s t : Store} {slot content : Slot} {name : String}

lemma field?_node {n : Node} (h : s.cell? slot = some (.node n)) (name : String) :
    s.field? name slot = n.field? name := by
  rw [field?, node?_eq_some_iff.mpr h, Option.bind_some]

lemma attribute?_node {n : Node} (h : s.cell? slot = some (.node n)) (name : String) :
    s.attribute? name slot = n.attribute? name := by
  rw [attribute?, node?_eq_some_iff.mpr h, Option.bind_some]

/-! ## Storing something in a node -/

/-- Nothing is stored in a frozen node, whatever the name. -/
lemma assign_frozen {n : Node} (h : s.cell? slot = some (.node n)) (hn : n.frozen = true)
    (name : String) (content : Slot) :
    s.assign slot name content = .error (.readOnly n.kind.name) := by
  obtain ⟨i, rfl⟩ := exists_ref h
  rw [assign, node?_eq_some_iff.mpr h]
  exact if_pos hn

/-- Something is stored in a node that is not frozen. -/
lemma exists_assign {n : Node} (h : s.cell? slot = some (.node n)) (hn : n.frozen = false)
    (hname : n.kind.owns name = false) (content : Slot) :
    ∃ t, s.assign slot name content = .ok t ∧
      t.cell? slot = some (.node (n.assign name content (s.outline content).countsAsTrue)) ∧
      t.cells.size = s.cells.size ∧ ∀ other, other ≠ slot → t.cell? other = s.cell? other := by
  obtain ⟨i, rfl⟩ := exists_ref h
  refine ⟨_, ?_, cell?_put_self h _, Array.size_setIfInBounds,
    fun other hother => cell?_put_of_ne hother _⟩
  rw [assign, node?_eq_some_iff.mpr h]
  exact (if_neg (Bool.eq_false_iff.mp hn)).trans (if_neg (Bool.eq_false_iff.mp hname))

/-- Only in a node that is not frozen something is stored. -/
lemma exists_node_of_assign (h : s.assign slot name content = .ok t) :
    ∃ n, s.cell? slot = some (.node n) ∧ n.frozen = false ∧ n.kind.owns name = false := by
  unfold assign at h
  split at h
  · next i n hi hnode =>
    rw [node?_eq_some_iff] at hnode
    split at h
    · cases h
    · next hn =>
      split at h
      · cases h
      · next hname =>
        exact ⟨n, hnode, Bool.eq_false_iff.mpr hn, Bool.eq_false_iff.mpr hname⟩
  · cases h

/-- A node is as frozen as it was when something is stored in one, but for the mark of frozen
nodes. -/
lemma exists_node_assign (h : s.assign slot name content = .ok t) {other : Slot} {n : Node}
    (hcell : s.cell? other = some (.node n)) (hname : name ≠ Node.frozenMark) :
    ∃ m, t.cell? other = some (.node m) ∧ m.kind = n.kind ∧ m.frozen = n.frozen := by
  obtain ⟨m, hnode, hm, howns⟩ := exists_node_of_assign h
  obtain ⟨t', hassign, hnode', -, hkept⟩ := exists_assign hnode hm howns content
  obtain rfl := Except.ok.inj (h.symm.trans hassign)
  by_cases hother : other = slot
  · subst hother
    obtain rfl := Cell.node.inj (Option.some.inj (hnode.symm.trans hcell))
    refine ⟨_, hnode', m.kind_assign .., ?_⟩
    rw [Node.frozen_assign, if_neg hname]
  · exact ⟨n, (hkept other hother).trans hcell, rfl, rfl⟩

/-- Seen from outside, a slot is as it was when something is stored in a node. -/
lemma outline_assign (h : s.assign slot name content = .ok t) (other : Slot) :
    (t.outline other).countsAsTrue = (s.outline other).countsAsTrue := by
  obtain ⟨n, hnode, hn, hname⟩ := exists_node_of_assign h
  obtain ⟨t', hassign, hnode', -, hkept⟩ := exists_assign hnode hn hname content
  obtain rfl := Except.ok.inj (h.symm.trans hassign)
  cases other with
  | plain v => rfl
  | ref i =>
    rw [outline, outline, ← cell?_ref, ← cell?_ref]
    by_cases hother : .ref i = slot
    · rw [hother, hnode, hnode']
      rfl
    · rw [hkept _ hother]

lemma protects_assign (h : s.assign slot name content = .ok t) : s.Protects t := by
  obtain ⟨n, hnode, hn, hname⟩ := exists_node_of_assign h
  obtain ⟨t', hassign, -, hsize, hkept⟩ := exists_assign hnode hn hname content
  obtain rfl := Except.ok.inj (h.symm.trans hassign)
  refine ⟨hsize.ge, fun other cell hcell hsealed => ?_⟩
  rw [hkept other, hcell]
  rintro rfl
  obtain rfl := Option.some.inj (hnode.symm.trans hcell)
  exact Bool.false_ne_true (hn.symm.trans hsealed)

/-! ## Copying a node -/

/-- A node is copied to a new node. -/
lemma copyWith_node {n : Node} (h : s.cell? slot = some (.node n)) {given : List (String × Slot)}
    (hnames : ∀ name ∈ given.map (·.1), name ∈ n.kind.fieldNames) :
    s.copyWith slot given =
      .ok (s.push (.node { kind := n.kind, fields := n.fieldsWith given })) := by
  rw [copyWith, node?_eq_some_iff.mpr h]
  dsimp only
  rw [NodeKind.argumentFault?_eq_none_iff.mpr hnames]

/-- Only nodes are copied, with fields that they have. -/
lemma exists_node_of_copyWith {given : List (String × Slot)} {copy : Slot}
    (h : s.copyWith slot given = .ok (copy, t)) :
    ∃ n, s.cell? slot = some (.node n) ∧
      s.push (.node { kind := n.kind, fields := n.fieldsWith given }) = (copy, t) := by
  unfold copyWith at h
  split at h
  · next n hnode =>
    split at h
    · cases h
    · exact ⟨n, node?_eq_some_iff.mp hnode, Except.ok.inj h⟩
  · cases h

/-- Copying changes nothing that was there before. -/
lemma isPartOf_copyWith {given : List (String × Slot)} {copy : Slot}
    (h : s.copyWith slot given = .ok (copy, t)) : s.IsPartOf t := by
  obtain ⟨n, -, hpush⟩ := exists_node_of_copyWith h
  have hpart := isPartOf_push s (.node { kind := n.kind, fields := n.fieldsWith given })
  rwa [hpush] at hpart

/-- A copy holds what is given for its fields, and otherwise what the node holds. -/
theorem holds_copy {n : Node} {values : List Value}
    (hfields : List.Forall₂ (s.Holds fun _ => True) n.fields values) {given : List (String × Slot)}
    {entries : List (String × Value)} (hgiven : List.Forall₂
      (fun g e => g.1 = e.1 ∧ s.Holds (fun _ => True) g.2 e.2) given entries) :
    let (copy, t) := s.push (.node { kind := n.kind, fields := n.fieldsWith given })
    t.Holds (fun _ => True) copy (.node n.kind (n.kind.withGiven entries values)) := by
  refine .of_forall₂ (cell?_push_new s _).2 trivial ?_
  have hpart := (isPartOf_push s
    (.node { kind := n.kind, fields := n.fieldsWith given })).growsTo
  rw [Cell.items, Node.fieldsWith, NodeKind.withGiven, List.forall₂_map_left_iff,
    List.forall₂_map_right_iff]
  refine (forall₂_zip hfields n.kind.fieldNames).imp fun entry entry' hentry => ?_
  have hrel := lookup_forall₂ hgiven entry.1
  dsimp only
  rw [← hentry.1]
  generalize given.lookup entry.1 = new at hrel
  generalize entries.lookup entry.1 = v at hrel
  cases hrel with
  | none => exact hpart.holds (fun _ _ => trivial) hentry.2
  | some hholds => exact hpart.holds (fun _ _ => trivial) hholds

end Store

end FormatCode
