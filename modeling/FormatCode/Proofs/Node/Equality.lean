import FormatCode.Proofs.Node.Closed
import FormatCode.Proofs.Value.Content

/-!
# Equality of nodes

Nodes are equal if they hold values of the same content, whatever they share and whatever is frozen.
So equality is an equivalence on nodes whose fields have contents. A sequence that is not looked
into, because two nodes share it, has the same content on both sides.

## Main definitions

* `Workbench.valueOf` — the value of what is given.
* `Workbench.afterFreezing` — a workbench after what is at some paths is frozen.

## Main statements

* `Store.Holds.tells_equal` — slots are equal if they hold values of the same content.
* `Workbench.ask_afterFreezing` — freezing changes no answer but whether a node is frozen.
* `Workbench.equal_refl_symm_trans` — the laws of equality, of copies and of freezing.
-/

namespace FormatCode

namespace Value

variable {x : Value} {cell : Cell} {values : List Value}

/-- The members of a node or tuple that has a content have one. -/
lemma HasContent.of_mem (h : (cell.value values).HasContent) (hx : x ∈ values) : x.HasContent := by
  cases cell with
  | list => exact h.elim
  | node => exact haveContent_iff.mp h.2 x hx
  | tuple => exact haveContent_iff.mp h x hx

/-- A value that holds no others has not the content of a node or tuple. -/
lemma content_ne_of_plain (hx : x.HasContent) (hplain : x.height = 0)
    (h : (cell.value values).HasContent) : x.content ≠ (cell.value values).content := by
  cases cell with
  | list items => exact h.elim
  | _ =>
    cases x <;>
      first | exact hx.elim | exact absurd hplain (Nat.succ_ne_zero _) | exact nofun

end Value

namespace NodeKind

variable {kind : NodeKind} {given : List (String × Value)} {values : List Value}

lemma nodup_fieldNames (kind : NodeKind) : kind.fieldNames.Nodup := by cases kind <;> decide

/-- What is given for a field has the content of the field if the node keeps its content. -/
lemma contents_withGiven_eq_iff (h : values.length = kind.fieldNames.length) :
    Value.contents (kind.withGiven given values) = Value.contents values ↔
      ∀ name v old, given.lookup name = some v →
        (kind.fieldNames.zip values).lookup name = some old → v.content = old.content := by
  have hvalues : Value.contents values =
      (kind.fieldNames.zip values).map fun entry => entry.2.content := by
    conv_lhs => rw [← List.map_snd_zip (Nat.le_of_eq h), Value.contents_eq_map, List.map_map]
    rfl
  rw [hvalues, Value.contents_eq_map, withGiven, List.map_map, List.map_inj_left]
  refine ⟨fun heq name v old hv hold => ?_, fun heq entry hentry => ?_⟩
  · simpa [hv] using heq (name, old) ((mem_zip_iff kind.nodup_fieldNames).mpr hold)
  · cases hv : given.lookup entry.1 with
    | none => simp [hv]
    | some v =>
      simpa [hv] using heq entry.1 v entry.2 hv ((mem_zip_iff kind.nodup_fieldNames).mp hentry)

/-- With values given that have a content, a node still has one. -/
lemma hasContent_withGiven (h : (Value.node kind values).HasContent)
    (hgiven : ∀ name v, given.lookup name = some v → v.HasContent) :
    (Value.node kind (kind.withGiven given values)).HasContent := by
  refine ⟨by simp [withGiven, h.1], Value.haveContent_iff.mpr ?_⟩
  simp only [withGiven, List.forall_mem_map]
  intro entry hentry
  cases hv : given.lookup entry.1 with
  | none => exact Value.haveContent_iff.mp h.2 _ (List.of_mem_zip hentry).2
  | some v => exact hgiven _ _ hv

end NodeKind

namespace Store

variable {s t : Store} {p q : Cell → Prop} {a b : Slot} {x y : Value}

/-! ## Sequences -/

/-- Whether two slots refer to one and the same cell, or else are equal by a given test. -/
def equalOrSame (equal : Slot → Slot → Except Fault Bool) : Slot → Slot → Except Fault Bool
  | .ref i, .ref j => if i = j then pure true else equal (.ref i) (.ref j)
  | a, b => equal a b

/-- Members are compared like fields, except that what is the same is not looked into. -/
lemma equalMembers_eq (equal : Slot → Slot → Except Fault Bool) (xs ys : List Slot) :
    equalMembers equal xs ys = equalFields (equalOrSame equal) xs ys := by
  induction xs generalizing ys with
  | nil => cases ys <;> rfl
  | cons x xs ih =>
    cases ys with
    | nil => cases x <;> rfl
    | cons y ys =>
      cases x <;> cases y <;> simp only [equalMembers, equalFields, equalOrSame, ih]

/-- Fields are equal if they have the same contents, where each is compared by its content. -/
lemma tells_equalFields {equal : Slot → Slot → Except Fault Bool} {R : Slot → Value → Prop}
    {xs ys : List Slot} {values values' : List Value}
    (hxs : List.Forall₂ (fun a x => ∀ b y, R b y → Tells (equal a b) (x.content = y.content))
      xs values) (hys : List.Forall₂ R ys values') :
    Tells (equalFields equal xs ys) (Value.contents values = Value.contents values') := by
  induction hxs generalizing ys values' with
  | nil =>
    cases hys with
    | nil => exact .of_true rfl
    | cons => exact .of_false (List.cons_ne_nil _ _).symm
  | cons hx _ ih =>
    cases hys with
    | nil => exact .of_false (List.cons_ne_nil _ _)
    | cons hy hys =>
      exact ((hx _ _ hy).and fun _ => ih hys).congr (by simp [Value.contents])

/-- Members are equal if they have the same contents, where each is compared by its content and has
that of every value that it is in relation to. -/
lemma tells_equalMembers {equal : Slot → Slot → Except Fault Bool} {R : Slot → Value → Prop}
    {xs ys : List Slot} {values values' : List Value}
    (hxs : List.Forall₂ (fun a x => (∀ y, R a y → x.content = y.content) ∧
      ∀ b y, R b y → Tells (equal a b) (x.content = y.content)) xs values)
    (hys : List.Forall₂ R ys values') :
    Tells (equalMembers equal xs ys) (Value.contents values = Value.contents values') := by
  rw [equalMembers_eq]
  refine tells_equalFields (hxs.imp fun a x h b y hb => ?_) hys
  unfold equalOrSame
  split
  · split
    · next hij =>
      subst hij
      exact .of_true (h.1 y hb)
    · exact h.2 _ y hb
  · exact h.2 b y hb

/-! ## Slots -/

/-- One step of comparing two cells that are nodes or tuples: they have to be of one kind, and their
items have the same contents. -/
lemma tells_equalTo_succ {i j : Nat} {cell cell' : Cell} {values values' : List Value}
    (hcell : s.cell? (.ref i) = some cell) (hcell' : s.cell? (.ref j) = some cell')
    (hx : (cell.value values).HasContent) (hy : (cell'.value values').HasContent)
    (hsame : i = j → cell.value values = cell'.value values') {depth : Nat}
    (hfields : Tells (equalFields (s.equalTo depth) cell.items cell'.items)
      (Value.contents values = Value.contents values'))
    (hmembers : Tells (equalMembers (s.equalTo depth) cell.items cell'.items)
      (Value.contents values = Value.contents values')) :
    Tells (s.equalTo (depth + 1) (.ref i) (.ref j))
      ((cell.value values).content = (cell'.value values').content) := by
  rw [cell?_ref] at hcell hcell'
  rw [equalTo, hcell, hcell']
  cases cell with
  | list => exact hx.elim
  | node n =>
    cases cell' with
    | list => exact hy.elim
    | tuple => exact .of_false (by simp [Cell.value, Value.content])
    | node => exact hfields.ite.congr (by simp [Cell.value, Value.content])
  | tuple items =>
    cases cell' with
    | list => exact hy.elim
    | node => exact .of_false (by simp [Cell.value, Value.content])
    | tuple =>
      dsimp only
      split
      · next hij => exact .of_true (congrArg _ (hsame hij))
      · exact hmembers.congr (by simp [Cell.value, Value.content])

/-- Two slots are equal if the values that they hold have the same content, no deeper than the first
of the values is high. -/
theorem Holds.tells_equalTo (ha : s.Holds p a x) (hb : s.Holds q b y) (hx : x.HasContent)
    (hy : y.HasContent) {depth : Nat} (hdepth : x.height ≤ depth) :
    Tells (s.equalTo depth a b) (x.content = y.content) := by
  induction ha generalizing b y depth with
  | plain hplain =>
    cases hb with
    | plain =>
      have hequal := Value.tells_equal hx hy
      cases depth <;> exact hequal
    | cell hcell =>
      obtain ⟨j, rfl⟩ := exists_ref hcell
      have hne := Value.content_ne_of_plain hx hplain hy
      cases depth <;> exact .of_false hne
  | @cell slot cell values hcell hp hlength hitems ih =>
    obtain ⟨i, rfl⟩ := exists_ref hcell
    rw [Value.height_value] at hdepth
    obtain ⟨depth, rfl⟩ := Nat.exists_eq_add_of_lt (Nat.lt_of_lt_of_le (Nat.succ_pos _) hdepth)
    rw [Nat.zero_add] at hdepth ⊢
    have ha : s.Holds p (.ref i) (cell.value values) := .cell hcell hp hlength hitems
    cases hb with
    | plain hplain => exact .of_false (Value.content_ne_of_plain hy hplain hx).symm
    | @cell _ cell' values' hcell' hp' hlength' hitems' =>
      obtain ⟨j, rfl⟩ := exists_ref hcell'
      have hb : s.Holds q (.ref j) (cell'.value values') := .cell hcell' hp' hlength' hitems'
      -- Each item is compared by its content with whatever holds a value that has one.
      have hxs : List.Forall₂ (fun a x =>
          (∀ y, s.Holds q a y ∧ y.HasContent → x.content = y.content) ∧
          ∀ b y, s.Holds q b y ∧ y.HasContent →
            Tells (s.equalTo depth a b) (x.content = y.content)) cell.items values := by
        refine List.forall₂_iff_get.mpr ⟨hlength, fun k hk hk' => ⟨fun y h => ?_, fun b y h => ?_⟩⟩
        · rw [(hitems k hk hk').unique h.1]
        · have hmem := List.get_mem values ⟨k, hk'⟩
          have hheight := Value.height_le_heights hmem
          exact ih k hk hk' h.1 (hx.of_mem hmem) h.2 (by omega)
      have hys : List.Forall₂ (fun b y => s.Holds q b y ∧ y.HasContent) cell'.items values' :=
        List.forall₂_iff_get.mpr ⟨hlength', fun k hk hk' => ⟨hitems' k hk hk',
          hy.of_mem (List.get_mem values' ⟨k, hk'⟩)⟩⟩
      refine tells_equalTo_succ hcell hcell' hx hy ?_
        (tells_equalFields (hxs.imp fun _ _ h => h.2) hys) (tells_equalMembers hxs hys)
      rintro rfl
      exact ha.unique hb

/-- Two slots are equal if the values that they hold have the same content. -/
theorem Holds.tells_equal (ha : s.Holds p a x) (hb : s.Holds q b y) (hx : x.HasContent)
    (hy : y.HasContent) : Tells (s.equal a b) (x.content = y.content) :=
  ha.tells_equalTo hb hx hy (ha.height_le.trans (Nat.le_mul_self _))

/-! ## Copies -/

/-- Whether a copy is equal to the node that it is made from: what is given for it has to be equal
to what the node holds. -/
theorem tells_equal_copy {n : Node} {values : List Value}
    (hcell : s.cell? a = some (.node n))
    (hfields : List.Forall₂ (s.Holds fun _ => True) n.fields values)
    (hcontent : (Value.node n.kind values).HasContent) {given : List (String × Slot)}
    {entries : List (String × Value)} (hgiven : List.Forall₂
      (fun g e => g.1 = e.1 ∧ s.Holds (fun _ => True) g.2 e.2) given entries)
    (hentries : ∀ name v, entries.lookup name = some v → v.HasContent) :
    let pushed := s.push (.node { kind := n.kind, fields := n.fieldsWith given })
    Tells (pushed.2.equal pushed.1 a) (∀ name v old, entries.lookup name = some v →
      (n.kind.fieldNames.zip values).lookup name = some old → v.content = old.content) := by
  have hcopy := holds_copy hfields hgiven
  have hnode : s.Holds (fun _ => True) a (.node n.kind values) := .of_forall₂ hcell trivial hfields
  have hnode' := (isPartOf_push s
    (.node { kind := n.kind, fields := n.fieldsWith given })).growsTo.holds (fun _ => id) hnode
  have hcontent' := NodeKind.hasContent_withGiven hcontent hentries
  refine (hcopy.tells_equal hnode' hcontent' hcontent).congr ?_
  rw [← NodeKind.contents_withGiven_eq_iff hcontent.1, Value.content, Value.content,
    Content.node.injEq, and_iff_right rfl]

end Store

namespace Workbench

variable {w : Workbench} {p q r : Path}

def valueOf (w : Workbench) : Given → Except Fault Value
  | .value v => .ok v
  | .path p => w.view p

/-! ## Freezing -/

/-- A workbench after what is at some paths is frozen in turn, as far as it can be. -/
def afterFreezing (w : Workbench) (paths : List Path) : Workbench :=
  paths.foldl (fun w p => (w.step (.freeze p)).2) w

lemma exists_afterFreezing (w : Workbench) (paths : List Path) :
    ∃ t, w.afterFreezing paths = ⟨t, w.names⟩ ∧ w.store.FreezesTo t := by
  induction paths generalizing w with
  | nil => exact ⟨w.store, rfl, .refl w.store⟩
  | cons p rest ih =>
    have hfirst : ∃ t, (w.step (.freeze p)).2 = ⟨t, w.names⟩ ∧ w.store.FreezesTo t := by
      rw [step, freeze]
      cases w.resolve p with
      | error e => exact ⟨w.store, rfl, .refl w.store⟩
      | ok slot => exact ⟨_, rfl, w.store.freezesTo_freeze slot⟩
    obtain ⟨t, heq, hfreezes⟩ := hfirst
    obtain ⟨u, heq', hfreezes'⟩ := ih (w.step (.freeze p)).2
    rw [heq] at heq' hfreezes'
    refine ⟨u, ?_, hfreezes.trans hfreezes'⟩
    rw [afterFreezing, List.foldl_cons, heq]
    exact heq'

/-- Freezing changes no answer but whether a node is frozen. -/
theorem ask_afterFreezing (hw : w.IsClosed) (paths : List Path) {question : Question}
    (h : ∀ p, question ≠ .isFrozen p) :
    (w.afterFreezing paths).ask question = w.ask question := by
  obtain ⟨t, heq, hfreezes⟩ := w.exists_afterFreezing paths
  have hresolve := hw.resolve_eq hfreezes.growsTo
  have hview : ∀ p, Workbench.view ⟨t, w.names⟩ p = w.view p := by
    intro p
    simp only [view, hresolve, hfreezes.view_eq]
  have houtline : ∀ p, Workbench.outline ⟨t, w.names⟩ p = w.outline p := by
    intro p
    simp only [outline, hresolve, hfreezes.outline_eq]
  have hequal : ∀ a b, Workbench.equal ⟨t, w.names⟩ a b = w.equal a b := by
    intro a b
    simp only [Workbench.equal, hresolve, hfreezes.equal_eq]
  rw [heq]
  cases question with
  | isFrozen p => exact absurd rfl (h p)
  | equal a b => simp only [ask, hequal]
  | unequal a b => simp only [ask, hequal]
  | isPlaceholder p => simp only [ask, houtline]
  | pad p => simp only [ask, houtline]
  | _ => simp only [ask, hview]

/-! ## The laws of equality -/

lemma equal_eq {a b : Slot} (hp : w.resolve p = .ok a) (hq : w.resolve q = .ok b) :
    w.equal p q = w.store.equal a b := by
  simp only [Workbench.equal, hp, hq, Bind.bind, Except.bind]

lemma ask_equal {e : Bool} (h : w.equal p q = .ok e) :
    w.ask (.equal p q) = .ok (.equality e) ∧ w.ask (.unequal p q) = .ok (.truth !e) := by
  simp only [ask, h, Bind.bind, Except.bind, pure, Except.pure, and_self]

/-- Nodes at two paths are equal if they have the same content. -/
lemma IsClosed.exists_tells (hw : w.IsClosed) {x y : Value} (hp : w.view p = .ok x)
    (hx : x.HasContent) (hq : w.view q = .ok y) (hy : y.HasContent) :
    ∃ e, w.equal p q = .ok e ∧ (e = true ↔ x.content = y.content) := by
  obtain ⟨a, ha, hax⟩ := hw.exists_holds hp
  obtain ⟨b, hb, hby⟩ := hw.exists_holds hq
  obtain ⟨e, he, hiff⟩ := hax.tells_equal hby hx hy
  exact ⟨e, (equal_eq ha hb).trans he, hiff⟩

/-- What holds a value that is given is new, or is there already. -/
lemma IsClosed.exists_holds_take (hw : w.IsClosed) {given : Given} {v : Value}
    (hv : w.valueOf given = .ok v) {s : Store} (hs : w.store.IsPartOf s) :
    ∃ slot t, w.take s given = .ok (slot, t) ∧ s.IsPartOf t ∧ t.Holds (fun _ => True) slot v := by
  cases given with
  | value u =>
    obtain rfl := Except.ok.inj hv
    have hinserts := s.inserts_insert u
    have hholds := (List.forall₂_cons.mp (hinserts.holds _ fun _ _ _ h => h)).1
    exact ⟨_, _, rfl, hinserts.isPartOf,
      hholds.mono fun _ cell hcell _ => ⟨cell, hcell, trivial, rfl, rfl⟩⟩
  | path p =>
    obtain ⟨slot, hslot, hholds⟩ := hw.exists_holds hv
    exact ⟨slot, s, Except.map_eq_ok_iff.mpr ⟨slot, hslot, rfl⟩, fun _ _ h => h,
      hs.growsTo.holds (fun _ => id) hholds⟩

lemma IsClosed.exists_holds_takeAll (hw : w.IsClosed) {given : List Given} {values : List Value}
    (hvalues : List.Forall₂ (fun g v => w.valueOf g = .ok v) given values) {s : Store}
    (hs : w.store.IsPartOf s) : ∃ slots t, w.takeAll s given = .ok (slots, t) ∧ s.IsPartOf t ∧
      List.Forall₂ (t.Holds fun _ => True) slots values := by
  induction hvalues generalizing s with
  | nil => exact ⟨[], s, rfl, fun _ _ h => h, .nil⟩
  | cons hfirst _ ih =>
    obtain ⟨slot, t, htake, hpart, hholds⟩ := hw.exists_holds_take hfirst hs
    obtain ⟨slots, u, htakeAll, hpart', hrest⟩ := ih (hs.trans hpart)
    exact ⟨slot :: slots, u, Except.bind_eq_ok_iff.mpr ⟨_, htake,
      Except.bind_eq_ok_iff.mpr ⟨_, htakeAll, rfl⟩⟩, hpart.trans hpart',
      .cons (hpart'.growsTo.holds (fun _ => id) hholds) hrest⟩

/-- A copy under another name leaves the path of its node as it was, and is equal to the node if
what is given is equal to what the node holds. -/
lemma IsClosed.exists_tells_copy (hw : w.IsClosed) {kind : NodeKind} {values : List Value}
    (hp : w.view p = .ok (.node kind values)) (hcontent : (Value.node kind values).HasContent)
    {given : List (String × Given)} {entries : List (String × Value)}
    (hentries : List.Forall₂ (fun g e => g.1 = e.1 ∧ w.valueOf g.2 = .ok e.2) given entries)
    (hnames : ∀ entry ∈ entries, entry.1 ∈ kind.fieldNames)
    (hgiven : ∀ field v, entries.lookup field = some v → v.HasContent)
    {name : String} (hname : name ≠ p.name) :
    ∃ after e, w.step (.copy p name given) = (.ok .done, after) ∧
      after.equal ⟨name, []⟩ p = .ok e ∧
      (e = true ↔ ∀ field v old, entries.lookup field = some v →
        (kind.fieldNames.zip values).lookup field = some old → v.content = old.content) := by
  obtain ⟨a, ha, hholds⟩ := hw.exists_holds hp
  obtain ⟨n, hcell, rfl, -, hfields⟩ := hholds.exists_node
  have hvalues : List.Forall₂ (fun g v => w.valueOf g = .ok v) (given.map (·.2))
      (entries.map (·.2)) := by
    rw [List.forall₂_map_left_iff, List.forall₂_map_right_iff]
    exact hentries.imp fun _ _ h => h.2
  obtain ⟨slots, s, htake, hpart, hslots⟩ := hw.exists_holds_takeAll hvalues fun _ _ h => h
  have hrel := forall₂_zip_names hslots
  rw [← map_fst_eq_of_forall₂ (R := fun g v => w.valueOf g = .ok v) hentries] at hrel
  have hcopy := Store.copyWith_node (hpart _ _ hcell)
    (map_fst_eq_of_forall₂ hrel ▸ List.forall_mem_map.mpr hnames)
  obtain ⟨e, he, hiff⟩ := Store.tells_equal_copy (hpart _ _ hcell)
    (hfields.imp fun _ _ h => hpart.growsTo.holds (fun _ => id) h) hcontent hrel hgiven
  have hpart' := Store.isPartOf_push s
    (.node { kind := n.kind, fields := n.fieldsWith ((given.map (·.1)).zip slots) })
  generalize s.push _ = pushed at hcopy he hpart'
  obtain ⟨copy, t⟩ := pushed
  have hnew : (w.bind name copy t).resolve ⟨name, []⟩ = .ok copy := by
    simp only [Workbench.bind, Workbench.resolve, List.lookup_cons, beq_self_eq_true]
    rfl
  have hold : (w.bind name copy t).resolve p = .ok a := by
    have hsame : (w.bind name copy t).resolve p = Workbench.resolve ⟨t, w.names⟩ p := by
      simp only [Workbench.bind, Workbench.resolve, List.lookup_cons,
        beq_eq_false_iff_ne.mpr hname.symm]
      rfl
    rw [hsame, hw.resolve_eq (hpart.trans hpart').growsTo, ha]
  refine ⟨w.bind name copy t, e, ?_, (equal_eq hnew hold).trans he, hiff⟩
  simp only [step, Workbench.copy, ha, htake, hcopy, Workbench.finish, Bind.bind, Except.bind, pure,
    Except.pure]

/-- A copy with one field given is equal to its node if what is given is equal to what the node
holds in the field. -/
lemma IsClosed.exists_tells_copy_field (hw : w.IsClosed) {kind : NodeKind} {values : List Value}
    (hp : w.view p = .ok (.node kind values)) (hcontent : (Value.node kind values).HasContent)
    {name : String} (hname : name ≠ p.name) {field : String} (hfield : field ∈ kind.fieldNames)
    {given : Given} {v : Value} (hgiven : w.valueOf given = .ok v) (hv : v.HasContent) :
    ∃ after old e, w.step (.copy p name [(field, given)]) = (.ok .done, after) ∧
      (Value.node kind values).property field = .ok old ∧ v.compare .equal old = .ok e ∧
      after.ask (.equal ⟨name, []⟩ p) = .ok (.equality e) := by
  obtain ⟨old, hold⟩ := Option.isSome_iff_exists.mp (isSome_lookup_zip hcontent.1 hfield)
  have hmem := (List.of_mem_zip ((mem_zip_iff kind.nodup_fieldNames).mpr hold)).2
  have hproperty : (Value.node kind values).property field = .ok old := by
    rw [Value.property, hold]
    rfl
  obtain ⟨e, he, hiff⟩ := Value.tells_equal hv (Value.haveContent_iff.mp hcontent.2 old hmem)
  obtain ⟨after, e', hstep, hask, hiff'⟩ := hw.exists_tells_copy hp hcontent
    (.cons ⟨rfl, hgiven⟩ .nil : List.Forall₂ _ [(field, given)] [(field, v)])
    (List.forall_mem_singleton.mpr hfield)
    (fun field' v' h => (lookup_singleton_eq_some_iff.mp h).2 ▸ hv) hname
  have hsame : (∀ field' v' old', [(field, v)].lookup field' = some v' →
      (kind.fieldNames.zip values).lookup field' = some old' → v'.content = old'.content) ↔
        v.content = old.content := by
    refine ⟨fun h => h field v old (lookup_singleton_eq_some_iff.mpr ⟨rfl, rfl⟩) hold, ?_⟩
    intro h field' v' old' hv' hold'
    obtain ⟨rfl, rfl⟩ := lookup_singleton_eq_some_iff.mp hv'
    obtain rfl := Option.some.inj (hold.symm.trans hold')
    exact h
  refine ⟨after, old, e, hstep, hproperty, he, ?_⟩
  rw [(ask_equal hask).1, Bool.eq_iff_iff.mpr ((hiff'.trans hsame).trans hiff.symm)]

/-- Nodes whose fields have contents are compared without a fault. Equality is reflexive, has one
outcome in both orders, which is false for nodes of different kinds and the opposite of which tells
whether the nodes are unequal, and is transitive. A copy is equal to its node, and with a field
given if what is given is equal to what the node holds there. Freezing changes no answer but whether
a node is frozen. -/
theorem equal_refl_symm_trans (hw : w.IsClosed) {k l m : NodeKind} {xs ys zs : List Value}
    (hp : w.view p = .ok (.node k xs)) (hx : (Value.node k xs).HasContent)
    (hq : w.view q = .ok (.node l ys)) (hy : (Value.node l ys).HasContent)
    (hr : w.view r = .ok (.node m zs)) (hz : (Value.node m zs).HasContent) :
    w.ask (.equal p p) = .ok (.equality true) ∧
    (∃ e, w.ask (.equal p q) = .ok (.equality e) ∧ w.ask (.equal q p) = .ok (.equality e) ∧
      (k ≠ l → e = false) ∧ w.ask (.unequal p q) = .ok (.truth (!e)) ∧
      (Value.node k xs).compare .unequal (.node l ys) = .ok (!e)) ∧
    (w.ask (.equal p q) = .ok (.equality true) → w.ask (.equal q r) = .ok (.equality true) →
      w.ask (.equal p r) = .ok (.equality true)) ∧
    (∀ name ≠ p.name, ∃ after, w.step (.copy p name []) = (.ok .done, after) ∧
      after.ask (.equal ⟨name, []⟩ p) = .ok (.equality true)) ∧
    (∀ name ≠ p.name, ∀ field ∈ k.fieldNames, ∀ given v, w.valueOf given = .ok v →
      v.HasContent → ∃ after old e, w.step (.copy p name [(field, given)]) = (.ok .done, after) ∧
      (Value.node k xs).property field = .ok old ∧ v.compare .equal old = .ok e ∧
      after.ask (.equal ⟨name, []⟩ p) = .ok (.equality e)) ∧
    ∀ paths question, (∀ p, question ≠ .isFrozen p) →
      (w.afterFreezing paths).ask question = w.ask question := by
  obtain ⟨epp, hpp, hppiff⟩ := hw.exists_tells hp hx hp hx
  obtain ⟨epq, hpq, hpqiff⟩ := hw.exists_tells hp hx hq hy
  obtain ⟨eqp, hqp, hqpiff⟩ := hw.exists_tells hq hy hp hx
  obtain ⟨eqr, hqr, hqriff⟩ := hw.exists_tells hq hy hr hz
  obtain ⟨epr, hpr, hpriff⟩ := hw.exists_tells hp hx hr hz
  have hsymm : eqp = epq := Bool.eq_iff_iff.mpr (hqpiff.trans (eq_comm.trans hpqiff.symm))
  refine ⟨?_, ⟨epq, (ask_equal hpq).1, hsymm ▸ (ask_equal hqp).1, fun hne => ?_,
    (ask_equal hpq).2, ?_⟩, fun h h' => ?_, fun name hname => ?_,
    fun name hname field hfield given v hgiven hv =>
      hw.exists_tells_copy_field hp hx hname hfield hgiven hv,
    fun paths question h => ask_afterFreezing hw paths h⟩
  · rw [(ask_equal hpp).1, hppiff.mpr rfl]
  · exact Bool.eq_false_iff.mpr fun htrue => hne (Content.node.inj (hpqiff.mp htrue)).1
  · obtain ⟨e, he, hiff⟩ := Value.tells_equal hx hy
    rw [Value.compare, he, Bool.eq_iff_iff.mpr (hiff.trans hpqiff.symm)]
    rfl
  · obtain rfl : epq = true := by simpa [(ask_equal hpq).1] using h
    obtain rfl : eqr = true := by simpa [(ask_equal hqr).1] using h'
    rw [(ask_equal hpr).1, hpriff.mpr ((hpqiff.mp rfl).trans (hqriff.mp rfl))]
  · obtain ⟨after, e, hstep, hask, hiff⟩ :=
      hw.exists_tells_copy hp hx .nil (by simp) (by simp) hname
    exact ⟨after, hstep, by rw [(ask_equal hask).1, hiff.mpr (by simp)]⟩

/-- Formats whose thresholds are one as an integer, a binary number and a decimal, made by steps. -/
theorem equal_refl_symm_trans_thresholds :
    let format (threshold : Value) : Value :=
      .node .format [.tuple [.node .condition [.text ">", threshold]]]
    let steps : List Step := [.make "whole" (format (.int 1)),
      .make "binary" (format (.float (.ofDecimal false 1 0))),
      .make "decimal" (format (.decimal (.finite false 10 (-1))))]
    ∃ w ∈ (({} : Workbench).run steps).map Prod.snd,
      w.ask (.equal ⟨"whole", []⟩ ⟨"decimal", []⟩) = .ok (.equality true) ∧
      (w.afterFreezing [⟨"whole", [.property "sections", .position 0]⟩]).ask
        (.equal ⟨"whole", []⟩ ⟨"decimal", []⟩) = .ok (.equality true) ∧
      ∃ after, w.step (.copy ⟨"whole", []⟩ "copy" [("sections", Value.tuple [])]) =
          (.ok .done, after) ∧
        after.ask (.equal ⟨"copy", []⟩ ⟨"whole", []⟩) = .ok (.equality false) := by
  intro format steps
  have hcontent : ∀ threshold : Value, threshold.HasContent → (format threshold).HasContent :=
    fun _ h => ⟨rfl, ⟨⟨rfl, trivial, h, trivial⟩, trivial⟩, trivial⟩
  have hbinary : (Value.float (.ofDecimal false 1 0)).HasContent :=
    Binary64.not_isNan_ofDecimal false 1 0
  have hdecimal : (Value.decimal (.finite false 10 (-1))).HasContent := id
  refine ⟨_, .tail _ (.tail _ (.head _)), ?_⟩
  have hw := isClosed_run (w := {}) nofun steps _ (.tail _ (.tail _ (.tail _ (.head _))))
  obtain ⟨-, -, htrans, -, hcopy, hfreezing⟩ :=
    equal_refl_symm_trans (p := ⟨"whole", []⟩) (q := ⟨"binary", []⟩) (r := ⟨"decimal", []⟩) hw
      rfl (hcontent (.int 1) trivial) rfl (hcontent _ hbinary) rfl (hcontent _ hdecimal)
  have htrue := htrans rfl rfl
  refine ⟨htrue, (hfreezing _ (.equal _ _) nofun).trans htrue, ?_⟩
  obtain ⟨after, old, e, hstep, hold, he, hask⟩ :=
    hcopy "copy" (by decide) "sections" (.head _) (.value (.tuple [])) (.tuple []) rfl trivial
  obtain rfl := Except.ok.inj hold
  obtain rfl := Except.ok.inj he
  exact ⟨after, hstep, hask⟩

end Workbench

end FormatCode
