import FormatCode.Proofs.Text.Quoted
import FormatCode.Proofs.Numeral.Digits
import FormatCode.Proofs.Value.Content
import FormatCode.Value.Printer
import Mathlib.Data.List.Forall2
import Mathlib.Tactic.Choose

/-!
# What the written form of a value tells

A value that consists of integers, texts, truth values, tuples and nodes can be told from its
written form, and from any text that begins with the form and goes on with a comma or a closing
parenthesis. The beginning tells a word, an integer, a quote or a parenthesis apart; a quoted text
tells where it ends; and the items of a tuple or node are told one after the other, since none
begins with a parenthesis that closes.

## Main definitions

* `Value.IsLegible` — the values that their written forms tell.
* `Value.EndsItem`, `Value.OpensItem` — what stands after a written item, and what begins one.
* `Value.IsTold` — whether an item is told by what is written for it.
* `Value.Shape`, `Value.Shape.read?` — what the beginning of a written form tells.

## Main statements

* `Value.told_commaSeparated`, `Value.told_parenthesized` — items that are told one by one are told
  by what is written for all of them.
* `Value.IsLegible.exists_writeWith` — a legible value has a written form if its integers do.
* `Value.IsWritten.read?_append` — the beginning of a written form tells the shape of the value.
* `Value.IsLegible.isTold` — a legible value is told by its written form.
* `Value.IsLegible.write_eq_iff` — legible values are written the same only if they are the same.
-/

namespace FormatCode

namespace Value

/-- A value that consists of what is missing, truth values, integers with a given property, texts,
tuples, and nodes with a value for each field. -/
inductive IsLegible (whole : Int → Prop) : Value → Prop
  | null : IsLegible whole .null
  | bool (b : Bool) : IsLegible whole (.bool b)
  | int {i : Int} : whole i → IsLegible whole (.int i)
  | text (s : String) : IsLegible whole (.text s)
  | tuple {items : List Value} : (∀ x ∈ items, IsLegible whole x) → IsLegible whole (.tuple items)
  | node {kind : NodeKind} {fields : List Value} : fields.length = kind.fieldNames.length →
    (∀ x ∈ fields, IsLegible whole x) → IsLegible whole (.node kind fields)

variable {printable : Char → Bool} {whole : Int → Prop} {x y : Value} {s t r r' : List Char}

/-- A legible value has a content. -/
lemma IsLegible.hasContent (h : x.IsLegible whole) : x.HasContent := by
  induction h with
  | tuple _ ih => exact haveContent_iff.mpr ih
  | node hlength _ ih => exact ⟨hlength, haveContent_iff.mpr ih⟩
  | _ => trivial

/-! ## Items one after the other -/

section Items

variable {α : Type} {Writes : α → List Char → Prop} {as bs : List α} {ss ts : List (List Char)}

/-- Whether a text may stand after a written item: nothing, a comma or a closing parenthesis. -/
def EndsItem (r : List Char) : Prop := ∀ c ∈ r.head?, c = ',' ∨ c = ')'

/-- Whether nothing else is written like an item, as far as the item goes. -/
def IsTold (Writes : α → List Char → Prop) (a : α) : Prop :=
  ∀ ⦃b s t r r'⦄, Writes a s → Writes b t → EndsItem r → EndsItem r' → s ++ r = t ++ r' →
    a = b ∧ r = r'

def OpensItem (s : List Char) : Prop := ∃ c tail, s = c :: tail ∧ c ≠ ')'

/-- What follows an item, up to the closing parenthesis and after it: the other items after a mark,
if there are any. -/
def afterItem (mark : List Char) (rest : List (List Char)) (r : List Char) : List Char :=
  if rest = [] then ')' :: r else mark ++ (commaSeparated rest ++ ')' :: r)

lemma endsItem_nil : EndsItem [] := nofun

lemma endsItem_comma (r : List Char) : EndsItem (',' :: r) := by
  rintro c ⟨⟩
  exact .inl rfl

lemma endsItem_afterItem (rest : List (List Char)) (r : List Char) :
    EndsItem (afterItem [',', ' '] rest r) := by
  unfold afterItem
  split
  · rintro c ⟨⟩
    exact .inr rfl
  · exact endsItem_comma _

lemma OpensItem.append_ne (h : OpensItem s) (r r' : List Char) : s ++ r ≠ ')' :: r' := by
  obtain ⟨c, tail, rfl, hc⟩ := h
  intro heq
  exact hc (List.cons.inj heq).1

lemma commaSeparated_cons (s : List Char) (rest : List (List Char)) (r : List Char) :
    commaSeparated (s :: rest) ++ ')' :: r = s ++ afterItem [',', ' '] rest r := by
  cases rest with
  | nil => simp [commaSeparated, afterItem]
  | cons t rest => simp [commaSeparated, afterItem]

lemma parenthesized_cons (s : List Char) (rest : List (List Char)) (r : List Char) :
    parenthesized (s :: rest) ++ r = '(' :: (s ++ ',' :: afterItem [' '] rest r) := by
  cases rest with
  | nil => simp [parenthesized, afterItem]
  | cons t rest => simp [parenthesized, commaSeparated, afterItem]

/-- What follows an item tells whether there are other items, and then tells them if the text after
the mark does. -/
lemma told_afterItem {mark : List Char} (hmark : OpensItem mark) (has : List.Forall₂ Writes as ss)
    (hbs : List.Forall₂ Writes bs ts)
    (htold : commaSeparated ss ++ ')' :: r = commaSeparated ts ++ ')' :: r' → as = bs ∧ r = r')
    (heq : afterItem mark ss r = afterItem mark ts r') : as = bs ∧ r = r' := by
  unfold afterItem at heq
  split_ifs at heq with hss hts hts
  · subst hss hts
    cases has
    cases hbs
    exact ⟨rfl, (List.cons.inj heq).2⟩
  · exact absurd heq.symm (hmark.append_ne _ _)
  · exact absurd heq (hmark.append_ne _ _)
  · exact htold (List.append_cancel_left heq)

/-- Items with commas between them are told if each item is. -/
theorem told_commaSeparated (hopens : ∀ b t, Writes b t → OpensItem t)
    (htold : ∀ a ∈ as, IsTold Writes a) (has : List.Forall₂ Writes as ss)
    (hbs : List.Forall₂ Writes bs ts)
    (heq : commaSeparated ss ++ ')' :: r = commaSeparated ts ++ ')' :: r') : as = bs ∧ r = r' := by
  induction has generalizing bs ts with
  | nil =>
    cases hbs with
    | nil => exact ⟨rfl, (List.cons.inj heq).2⟩
    | cons ht _ =>
      rw [commaSeparated_cons] at heq
      exact absurd heq.symm ((hopens _ _ ht).append_ne _ _)
  | @cons a s as ss hs has ih =>
    rw [commaSeparated_cons] at heq
    cases hbs with
    | nil => exact absurd heq ((hopens _ _ hs).append_ne _ _)
    | @cons b t bs ts ht hbs =>
      rw [List.forall_mem_cons] at htold
      rw [commaSeparated_cons] at heq
      obtain ⟨rfl, hrest⟩ := htold.1 hs ht (endsItem_afterItem _ _) (endsItem_afterItem _ _) heq
      obtain ⟨rfl, hr⟩ :=
        told_afterItem ⟨',', [' '], rfl, by decide⟩ has hbs (ih htold.2 hbs) hrest
      exact ⟨rfl, hr⟩

/-- A tuple is told if each of its members is. -/
theorem told_parenthesized (hopens : ∀ b t, Writes b t → OpensItem t)
    (htold : ∀ a ∈ as, IsTold Writes a) (has : List.Forall₂ Writes as ss)
    (hbs : List.Forall₂ Writes bs ts) (heq : parenthesized ss ++ r = parenthesized ts ++ r') :
    as = bs ∧ r = r' := by
  cases has with
  | nil =>
    cases hbs with
    | nil => exact ⟨rfl, (List.cons.inj (List.cons.inj heq).2).2⟩
    | cons ht _ =>
      rw [parenthesized_cons] at heq
      exact absurd (List.cons.inj heq).2.symm ((hopens _ _ ht).append_ne _ _)
  | @cons a s as ss hs has =>
    rw [parenthesized_cons] at heq
    cases hbs with
    | nil => exact absurd (List.cons.inj heq).2 ((hopens _ _ hs).append_ne _ _)
    | @cons b t bs ts ht hbs =>
      rw [List.forall_mem_cons] at htold
      rw [parenthesized_cons] at heq
      obtain ⟨rfl, hrest⟩ :=
        htold.1 hs ht (endsItem_comma _) (endsItem_comma _) (List.cons.inj heq).2
      obtain ⟨rfl, hr⟩ := told_afterItem ⟨' ', [], rfl, by decide⟩ has hbs
        (told_commaSeparated hopens htold.2 has hbs) (List.cons.inj hrest).2
      exact ⟨rfl, hr⟩

end Items

/-! ## What is written for a value -/

lemma writeMembers_eq_ok_iff {items : List Value} {ss : List (List Char)} :
    writeMembers printable items = .ok ss ↔
      List.Forall₂ (fun x s => x.writeWith printable = .ok s) items ss := by
  induction items generalizing ss with
  | nil =>
    rw [writeMembers, List.forall₂_nil_left_iff, Except.ok.injEq, eq_comm]
  | cons x items ih =>
    rw [writeMembers, List.forall₂_cons_left_iff]
    constructor
    · intro h
      obtain ⟨s, hs, h⟩ := Except.bind_eq_ok_iff.mp h
      obtain ⟨rest, hrest, h⟩ := Except.bind_eq_ok_iff.mp h
      exact ⟨s, rest, hs, ih.mp hrest, (Except.ok.inj h).symm⟩
    · rintro ⟨s, rest, hs, hrest, rfl⟩
      rw [hs, ih.mpr hrest]
      rfl

lemma writeFields_eq_ok_iff {names : List String} {fields : List Value} {ss : List (List Char)} :
    writeFields printable names fields = .ok ss ↔ List.Forall₂
      (fun entry s => ∃ w, entry.2.writeWith printable = .ok w ∧ s = entry.1.toList ++ '=' :: w)
      (names.zip fields) ss := by
  induction names generalizing fields ss with
  | nil =>
    rw [writeFields, List.zip_nil_left, List.forall₂_nil_left_iff, Except.ok.injEq, eq_comm]
    simp
  | cons name names ih =>
    cases fields with
    | nil =>
      rw [writeFields, List.zip_nil_right, List.forall₂_nil_left_iff, Except.ok.injEq, eq_comm]
      simp
    | cons x fields =>
      rw [writeFields, List.zip_cons_cons, List.forall₂_cons_left_iff]
      constructor
      · intro h
        obtain ⟨w, hw, h⟩ := Except.bind_eq_ok_iff.mp h
        obtain ⟨rest, hrest, h⟩ := Except.bind_eq_ok_iff.mp h
        exact ⟨_, rest, ⟨w, hw, rfl⟩, ih.mp hrest, (Except.ok.inj h).symm⟩
      · rintro ⟨_, rest, ⟨w, hw, rfl⟩, hrest, rfl⟩
        rw [hw, ih.mpr hrest]
        rfl

lemma writeInt_eq_ok_iff {i : Int} :
    Number.writeInt i = .ok s ↔ Numeral.fits i.natAbs ∧ Numeral.signed i = s := by
  unfold Number.writeInt
  split <;> simp [*]

lemma writeWith_int {i : Int} : (int i).writeWith printable = Number.writeInt i := by
  rw [writeWith, writeAtom] <;> nofun

/-- A legible value has a written form if its integers do. -/
theorem IsLegible.exists_writeWith (h : x.IsLegible fun i => Numeral.fits i.natAbs)
    (printable : Char → Bool) : ∃ s, x.writeWith printable = .ok s := by
  induction h with
  | null => exact ⟨_, rfl⟩
  | bool b => exact ⟨_, rfl⟩
  | @int i hi =>
    rw [writeWith_int]
    exact ⟨_, writeInt_eq_ok_iff.mpr ⟨hi, rfl⟩⟩
  | text s => exact ⟨_, rfl⟩
  | @tuple items _ ih =>
    choose! written hwritten using ih
    have hmembers : writeMembers printable items = .ok (items.map written) :=
      writeMembers_eq_ok_iff.mpr (List.forall₂_map_right_iff.mpr (List.forall₂_same.mpr hwritten))
    exact ⟨_, by rw [writeWith, hmembers]; rfl⟩
  | @node kind fields _ _ ih =>
    choose! written hwritten using ih
    have hfields : writeFields printable kind.fieldNames fields =
        .ok ((kind.fieldNames.zip fields).map fun entry =>
          entry.1.toList ++ '=' :: written entry.2) := by
      refine writeFields_eq_ok_iff.mpr ?_
      refine List.forall₂_map_right_iff.mpr (List.forall₂_same.mpr fun entry hentry => ?_)
      exact ⟨_, hwritten entry.2 (List.of_mem_zip hentry).2, rfl⟩
    exact ⟨_, by rw [writeWith, hfields]; rfl⟩

structure IsWritten (printable : Char → Bool) (x : Value) (s : List Char) : Prop where
  isLegible : x.IsLegible fun _ => True
  write_eq : x.writeWith printable = .ok s

def IsWrittenField (printable : Char → Bool) (entry : String × Value) (s : List Char) : Prop :=
  ('=' ∉ entry.1.toList ∧ ')' ∉ entry.1.toList) ∧
    ∃ w, IsWritten printable entry.2 w ∧ s = entry.1.toList ++ '=' :: w

lemma isWritten_int {i : Int} (h : IsWritten printable (.int i) s) : s = Numeral.signed i := by
  have hwrite := h.write_eq
  rw [writeWith_int] at hwrite
  exact (writeInt_eq_ok_iff.mp hwrite).2.symm

lemma isWritten_tuple {items : List Value} (h : IsWritten printable (.tuple items) s) :
    ∃ ss, List.Forall₂ (IsWritten printable) items ss ∧ s = parenthesized ss := by
  obtain ⟨hlegible, hwrite⟩ := h
  cases hlegible with
  | tuple hitems =>
    rw [writeWith] at hwrite
    obtain ⟨ss, hss, hs⟩ := Except.bind_eq_ok_iff.mp hwrite
    refine ⟨ss, ?_, (Except.ok.inj hs).symm⟩
    refine List.forall₂_iff_get.mpr ⟨(writeMembers_eq_ok_iff.mp hss).length_eq, fun i h h' => ?_⟩
    exact ⟨hitems _ (List.get_mem ..), (writeMembers_eq_ok_iff.mp hss).get h h'⟩

lemma isWritten_node {kind : NodeKind} {fields : List Value}
    (h : IsWritten printable (.node kind fields) s) :
    ∃ ss, List.Forall₂ (IsWrittenField printable) (kind.fieldNames.zip fields) ss ∧
      s = kind.name.toList ++ '(' :: commaSeparated ss ++ [')'] := by
  obtain ⟨hlegible, hwrite⟩ := h
  have hnames : ∀ name ∈ kind.fieldNames, '=' ∉ name.toList ∧ ')' ∉ name.toList := by
    cases kind <;> decide
  cases hlegible with
  | node hlength hfields =>
    rw [writeWith] at hwrite
    obtain ⟨ss, hss, hs⟩ := Except.bind_eq_ok_iff.mp hwrite
    have hentries := writeFields_eq_ok_iff.mp hss
    refine ⟨ss, ?_, (Except.ok.inj hs).symm⟩
    refine List.forall₂_iff_get.mpr ⟨hentries.length_eq, fun i h h' => ?_⟩
    obtain ⟨hname, hfield⟩ := List.of_mem_zip (List.get_mem (kind.fieldNames.zip fields) ⟨i, h⟩)
    obtain ⟨w, hw, heq⟩ := hentries.get h h'
    exact ⟨hnames _ hname, w, ⟨hfields _ hfield, hw⟩, heq⟩

/-! ## What a written form begins with -/

/-- What the beginning of a written form tells: the sort of the value, a number or truth value
itself, and the kind of a node. -/
inductive Shape
  | null
  | bool (b : Bool)
  | int (i : Int)
  | text
  | tuple
  | node (kind : NodeKind)

def shape? : Value → Option Shape
  | null => some .null
  | bool b => some (.bool b)
  | int i => some (.int i)
  | text _ => some .text
  | tuple _ => some .tuple
  | node kind _ => some (.node kind)
  | _ => none

/-- A word ends where the text goes on with another character. -/
lemma takeWhile_append {p : Char → Bool} {word rest : List Char} (hword : ∀ c ∈ word, p c)
    (hrest : ∀ c ∈ rest.head?, ¬ p c) : (word ++ rest).takeWhile p = word := by
  rw [List.takeWhile_append_of_pos hword]
  cases rest with
  | nil => simp
  | cons c rest => simp [hrest c rfl]

namespace Shape

def ofWord? (word : List Char) : Option Shape :=
  if word = "None".toList then some .null
  else if word = "True".toList then some (.bool true)
  else if word = "False".toList then some (.bool false)
  else (NodeKind.ofName? (String.ofList word)).map .node

/-- Whether a character may stand in a word: those from `A` on, which the digits and the marks
between values precede. -/
def isWordChar (c : Char) : Bool := 'A'.toNat ≤ c.toNat

def read? : List Char → Option Shape
  | [] => none
  | c :: s =>
    if isWordChar c then ofWord? ((c :: s).takeWhile isWordChar)
    else if c.isDigit then some (.int (Numeral.value ((c :: s).takeWhile Char.isDigit)))
    else if c = '-' then some (.int (-Numeral.value (s.takeWhile Char.isDigit)))
    else if c = '(' then some .tuple
    else if c = '\x27' ∨ c = '\x22' then some .text
    else none

lemma read?_word {word rest : List Char} (hne : word ≠ []) (hword : word.all isWordChar)
    (hrest : ∀ c ∈ rest.head?, ¬ isWordChar c) : read? (word ++ rest) = ofWord? word := by
  rw [List.all_eq_true] at hword
  have htake := takeWhile_append hword hrest
  cases word with
  | nil => exact absurd rfl hne
  | cons c word =>
    rw [List.cons_append, read?, if_pos (hword c List.mem_cons_self), ← List.cons_append, htake]

lemma not_isWordChar_of_isDigit {c : Char} (h : c.isDigit) : ¬ isWordChar c := by
  have hdigit : c.toNat ≤ 57 := (Char.isDigit_iff_toNat.mp h).2
  intro hword
  have hletter : 65 ≤ c.toNat := of_decide_eq_true hword
  omega

lemma read?_digits (n : Nat) {rest : List Char} (hrest : ∀ c ∈ rest.head?, ¬ c.isDigit) :
    read? (Numeral.digits n ++ rest) = some (.int n) := by
  have htake := takeWhile_append (Numeral.plain_digits n) hrest
  cases hdigits : Numeral.digits n with
  | nil => exact absurd hdigits (Numeral.digits_ne_nil n)
  | cons c ds =>
    have hdigit : c.isDigit := Numeral.plain_digits n c (by rw [hdigits]; exact List.mem_cons_self)
    rw [hdigits] at htake
    rw [List.cons_append, read?, if_neg (not_isWordChar_of_isDigit hdigit), if_pos hdigit,
      ← List.cons_append, htake, ← hdigits, Numeral.value_digits]

lemma read?_signed (i : Int) {rest : List Char} (hrest : ∀ c ∈ rest.head?, ¬ c.isDigit) :
    read? (Numeral.signed i ++ rest) = some (.int i) := by
  cases i with
  | ofNat n => exact read?_digits n hrest
  | negSucc n =>
    change some (Shape.int (-Numeral.value ((Numeral.digits (n + 1) ++ rest).takeWhile _))) = _
    rw [takeWhile_append (Numeral.plain_digits (n + 1)) hrest, Numeral.value_digits]
    rfl

lemma ofWord?_name (kind : NodeKind) : ofWord? kind.name.toList = some (.node kind) := by
  rw [ofWord?, String.ofList_toList, NodeKind.ofName?_name]
  cases kind <;> rfl

end Shape

lemma EndsItem.not_of_mem {p : Char → Bool} (h : EndsItem r) (hcomma : ¬ p ',') (hclose : ¬ p ')') :
    ∀ c ∈ r.head?, ¬ p c := by
  intro c hc
  obtain rfl | rfl := h c hc
  · exact hcomma
  · exact hclose

/-- The beginning of a written form tells the shape of the value. -/
theorem IsWritten.read?_append (h : IsWritten printable x s) (hr : EndsItem r) :
    Shape.read? (s ++ r) = x.shape? := by
  have hletter : ∀ c ∈ r.head?, ¬ Shape.isWordChar c := hr.not_of_mem (by decide) (by decide)
  have hdigit : ∀ c ∈ r.head?, ¬ c.isDigit := hr.not_of_mem (by decide) (by decide)
  cases h.isLegible with
  | null =>
    cases h.write_eq
    exact Shape.read?_word (by decide) (by decide) hletter
  | bool b =>
    cases h.write_eq
    cases b <;> exact Shape.read?_word (by decide) (by decide) hletter
  | @int i _ =>
    rw [isWritten_int h]
    exact Shape.read?_signed i hdigit
  | text s =>
    cases h.write_eq
    obtain hquote | hquote := Quoted.delimiter_eq s.toList
    · rw [Quoted.encode, hquote]
      rfl
    · rw [Quoted.encode, hquote]
      rfl
  | tuple _ =>
    obtain ⟨ss, -, rfl⟩ := isWritten_tuple h
    rcases ss with _ | ⟨s, _ | ⟨t, ss⟩⟩ <;> rfl
  | @node kind fields _ _ =>
    obtain ⟨ss, -, rfl⟩ := isWritten_node h
    have hname : kind.name.toList ≠ [] ∧ kind.name.toList.all Shape.isWordChar := by
      cases kind <;> decide
    have hparenthesis : ∀ c ∈ ('(' :: (commaSeparated ss ++ ')' :: r)).head?,
        ¬ Shape.isWordChar c := by
      rintro c ⟨⟩
      decide
    have hread := Shape.read?_word hname.1 hname.2 hparenthesis
    rw [Shape.ofWord?_name] at hread
    simpa [shape?] using hread

lemma IsWritten.shape?_eq (hx : IsWritten printable x s) (hy : IsWritten printable y t)
    (hr : EndsItem r) (hr' : EndsItem r') (heq : s ++ r = t ++ r') : x.shape? = y.shape? := by
  rw [← hx.read?_append hr, heq, hy.read?_append hr']

/-- A written form does not begin with a closing parenthesis. -/
lemma IsWritten.opensItem (h : IsWritten printable x s) : OpensItem s := by
  have hread := h.read?_append endsItem_nil
  have hshape : x.shape? ≠ none := by cases h.isLegible <;> nofun
  rw [List.append_nil] at hread
  cases s with
  | nil => exact absurd hread.symm hshape
  | cons c s =>
    refine ⟨c, s, rfl, ?_⟩
    rintro rfl
    exact hshape hread.symm

/-! ## Legible values -/

lemma IsWrittenField.opensItem {entry : String × Value} (h : IsWrittenField printable entry s) :
    OpensItem s := by
  obtain ⟨⟨-, hclose⟩, w, -, rfl⟩ := h
  cases hname : entry.1.toList with
  | nil => exact ⟨_, _, rfl, by decide⟩
  | cons c name =>
    refine ⟨_, _, rfl, ?_⟩
    rintro rfl
    exact hclose (hname ▸ List.mem_cons_self)

/-- A field is told if its value is: the name ends at the first equality sign. -/
lemma isTold_field {name : String} (h : IsTold (IsWritten printable) x) :
    IsTold (IsWrittenField printable) (name, x) := by
  rintro ⟨name', y⟩ _ _ r r' ⟨⟨hname, -⟩, s, hx, rfl⟩ ⟨⟨hname', -⟩, t, hy, rfl⟩ hr hr' heq
  have hcut {name : String} (hname : '=' ∉ name.toList) (w r : List Char) :
      (name.toList ++ '=' :: w ++ r).takeWhile (· ≠ '=') = name.toList := by
    rw [List.append_assoc]
    refine takeWhile_append ?_ ?_
    · rintro c hc
      exact decide_eq_true (ne_of_mem_of_not_mem hc hname)
    · rintro c ⟨⟩
      decide
  have hnames : name = name' := by
    rw [← String.toList_inj, ← hcut hname s r, heq, hcut hname' t r']
  subst hnames
  rw [List.append_assoc, List.append_assoc] at heq
  obtain ⟨rfl, hrest⟩ := h hx hy hr hr' (List.cons.inj (List.append_cancel_left heq)).2
  exact ⟨rfl, hrest⟩

/-- A value that is the only one of its shape is told. -/
lemma isTold_of_shape (h : ∀ y : Value, x.shape? = y.shape? → x = y) :
    IsTold (IsWritten printable) x := by
  intro y s t r r' hx hy hr hr' heq
  obtain rfl := h y (hx.shape?_eq hy hr hr' heq)
  have hst : s = t := Except.ok.inj (hx.write_eq.symm.trans hy.write_eq)
  rw [hst] at heq
  exact ⟨rfl, List.append_cancel_left heq⟩

lemma isTold_text (u : String) : IsTold (IsWritten printable) (text u) := by
  intro y s t r r' hx hy hr hr' heq
  have hshape := hx.shape?_eq hy hr hr' heq
  cases y <;> cases hshape
  cases hx.write_eq
  cases hy.write_eq
  obtain ⟨htext, hrest⟩ := Quoted.encode_append_inj heq
  rw [String.toList_inj] at htext
  rw [htext]
  exact ⟨rfl, hrest⟩

lemma isTold_tuple {items : List Value} (h : ∀ x ∈ items, IsTold (IsWritten printable) x) :
    IsTold (IsWritten printable) (tuple items) := by
  intro y s t r r' hx hy hr hr' heq
  have hshape := hx.shape?_eq hy hr hr' heq
  cases y <;> cases hshape
  obtain ⟨ss, hss, rfl⟩ := isWritten_tuple hx
  obtain ⟨ts, hts, rfl⟩ := isWritten_tuple hy
  obtain ⟨rfl, hrest⟩ := told_parenthesized (fun _ _ h => h.opensItem) h hss hts heq
  exact ⟨rfl, hrest⟩

lemma isTold_node {kind : NodeKind} {fields : List Value}
    (hlength : fields.length = kind.fieldNames.length)
    (h : ∀ x ∈ fields, IsTold (IsWritten printable) x) :
    IsTold (IsWritten printable) (node kind fields) := by
  intro y s t r r' hx hy hr hr' heq
  have hshape := hx.shape?_eq hy hr hr' heq
  cases y <;> cases hshape
  cases hy.isLegible with
  | node hlength' _ =>
    obtain ⟨ss, hss, rfl⟩ := isWritten_node hx
    obtain ⟨ts, hts, rfl⟩ := isWritten_node hy
    have htold : ∀ entry ∈ kind.fieldNames.zip fields, IsTold (IsWrittenField printable) entry :=
      fun entry hentry => isTold_field (h entry.2 (List.of_mem_zip hentry).2)
    have hitems : commaSeparated ss ++ ')' :: r = commaSeparated ts ++ ')' :: r' := by
      simpa using heq
    obtain ⟨hentries, hrest⟩ := told_commaSeparated (fun _ _ h => h.opensItem) htold hss hts hitems
    -- The names are those of the kind on both sides, so the values are the same one by one.
    have hfields := congrArg (List.map Prod.snd) hentries
    rw [List.map_snd_zip hlength.le, List.map_snd_zip hlength'.le] at hfields
    rw [hfields]
    exact ⟨rfl, hrest⟩

/-- A legible value is told by its written form. -/
theorem IsLegible.isTold (h : x.IsLegible fun _ => True) : IsTold (IsWritten printable) x := by
  induction h with
  | null =>
    apply isTold_of_shape
    intro y hy
    cases y <;> cases hy
    rfl
  | bool b =>
    apply isTold_of_shape
    intro y hy
    cases y <;> cases hy
    rfl
  | int _ =>
    apply isTold_of_shape
    intro y hy
    cases y <;> cases hy
    rfl
  | text s => exact isTold_text s
  | tuple _ ih => exact isTold_tuple ih
  | node hlength _ ih => exact isTold_node hlength ih

/-- Legible values are written the same only if they are the same. -/
theorem IsLegible.write_eq_iff (hx : x.IsLegible fun _ => True) (hy : y.IsLegible fun _ => True)
    (hs : x.writeWith printable = .ok s) (ht : y.writeWith printable = .ok t) :
    s = t ↔ x = y := by
  constructor
  · rintro rfl
    exact (hx.isTold ⟨hx, hs⟩ ⟨hy, ht⟩ endsItem_nil endsItem_nil rfl).1
  · rintro rfl
    exact Except.ok.inj (hs.symm.trans ht)

end Value

end FormatCode
