import FormatCode.Proofs.Number.Sign
import Mathlib.Data.List.Basic

/-!
# The item chosen for a value

How a section is chosen can be said of any items that have a section each, and the choice depends on
the items only through the conditions of their sections. So it is the same for sections alone and
for the texts that they are written as.

## Main definitions

* `Section.accepts` — whether a section has a condition that accepts a value.
* `Section.Decides` — whether a section decides on a value.
* `chosen` — the item whose section is for a value.
* `CellValue.IsNan` — whether a value is a number that is not a number.
* `CellValue.IsDecimalNan` — the values of which an order is a fault.

## Main statements

* `Format.select_eq_chosen_of_decides`, `Format.select_eq_chosen` — a format of two or more sections
  selects the section that is chosen.
-/

namespace FormatCode

def Section.accepts (s : Section) (v : CellValue) : Bool :=
  match s.claims v.toValue with
  | .ok accepted => accepted
  | .error _ => false

def CellValue.IsNan : CellValue → Prop
  | .text _ => False
  | .number n => n.IsNan

def CellValue.IsDecimalNan : CellValue → Prop
  | .text _ => False
  | .number n => n.IsDecimalNan

lemma CellValue.IsDecimalNan.isNan {v : CellValue} (h : v.IsDecimalNan) : v.IsNan := by
  cases v with
  | text s => exact h
  | number n => exact Number.IsDecimalNan.isNan h

section chosen

variable {α β : Type} (sectionOf : α → Section)

/-- The item whose section is for a value. For text this is the fourth of four and otherwise the
first. For a number it is the first whose condition accepts the number, and otherwise the first
without a condition; and where there are no conditions, it goes by the sign: positive, negative and
zero for three and four items, the second for negative numbers for two, and otherwise the first. -/
def chosen (items : List α) : CellValue → Option α
  | .text _ => if items.length = 4 then items[3]? else items.head?
  | .number n =>
    if items.any fun a => (sectionOf a).condition.isSome then
      (items.find? fun a => (sectionOf a).accepts (.number n)).or
        (items.find? fun a => (sectionOf a).condition.isNone)
    else match items.length, n.sign with
      | 2, .lt | 3, .lt | 4, .lt => items[1]?
      | 3, .eq | 4, .eq => items[2]?
      | _, _ => items.head?

/-- An item that is chosen is one of the items. -/
theorem mem_of_chosen {items : List α} {v : CellValue} {a : α}
    (h : chosen sectionOf items v = some a) : a ∈ items := by
  cases v with
  | text s =>
    rw [chosen] at h
    split at h
    · exact List.mem_of_getElem? h
    · exact List.mem_of_head? h
  | number n =>
    rw [chosen] at h
    split at h
    · obtain h | ⟨-, h⟩ := Option.or_eq_some_iff.mp h <;> exact List.mem_of_find?_eq_some h
    · split at h
      · exact List.mem_of_getElem? h
      · exact List.mem_of_getElem? h
      · exact List.mem_of_getElem? h
      · exact List.mem_of_getElem? h
      · exact List.mem_of_getElem? h
      · exact List.mem_of_head? h

/-- The choice depends on the conditions of the sections only. -/
theorem chosen_map {sectionOf' : β → Section} {f : α → β}
    (hcondition : ∀ a, (sectionOf' (f a)).condition = (sectionOf a).condition)
    (items : List α) (v : CellValue) :
    chosen sectionOf' (items.map f) v = (chosen sectionOf items v).map f := by
  have haccepts : ∀ a, (sectionOf' (f a)).accepts v = (sectionOf a).accepts v := by
    intro a
    rw [Section.accepts, Section.accepts, Section.claims, Section.claims, hcondition]
  cases v with
  | text s =>
    simp only [chosen, List.length_map, List.getElem?_map, List.head?_map]
    split <;> rfl
  | number n =>
    simp only [chosen, List.length_map, List.any_map, List.find?_map, Function.comp_def, hcondition,
      haccepts, List.getElem?_map, List.head?_map]
    split
    · rw [Option.map_or]
    · split <;> rfl

/-- The choice for a number depends on the conditions that accept it and on its sign only. -/
theorem chosen_congr {items : List α} {m n : Number}
    (haccepts : ∀ a ∈ items,
      (sectionOf a).accepts (.number m) = (sectionOf a).accepts (.number n))
    (hsign : m.sign = n.sign) :
    chosen sectionOf items (.number m) = chosen sectionOf items (.number n) := by
  have hfind : items.find? (fun a => (sectionOf a).accepts (.number m)) =
      items.find? (fun a => (sectionOf a).accepts (.number n)) := by
    induction items with
    | nil => rfl
    | cons a rest ih =>
      rw [List.forall_mem_cons] at haccepts
      rw [List.find?_cons, List.find?_cons, haccepts.1, ih haccepts.2]
  rw [chosen, chosen, hfind, hsign]

end chosen

/-- Without conditions one of the items is chosen, if there are any. -/
lemma exists_chosen {α : Type} (sectionOf : α → Section) {items : List α} (hitems : items ≠ [])
    (hconditions : ∀ a ∈ items, (sectionOf a).condition = none) (v : CellValue) :
    ∃ a, chosen sectionOf items v = some a := by
  have hhead : ∃ a, items.head? = some a := ⟨_, List.head?_eq_some_head hitems⟩
  cases v with
  | text s =>
    rw [chosen]
    split
    · next hlength => exact ⟨_, List.getElem?_eq_getElem (by omega)⟩
    · exact hhead
  | number n =>
    have hget : ∀ i < items.length, ∃ a, items[i]? = some a :=
      fun i hi => ⟨_, List.getElem?_eq_getElem hi⟩
    have hany : ¬ items.any fun a => (sectionOf a).condition.isSome := by
      simpa using fun a ha => hconditions a ha
    rw [chosen, if_neg hany]
    split
    · exact hget 1 (by omega)
    · exact hget 1 (by omega)
    · exact hget 1 (by omega)
    · exact hget 2 (by omega)
    · exact hget 2 (by omega)
    · exact hhead

/-! ## Deciding on a section -/

def Section.IsComparable (s : Section) : Prop := ∀ c, s.condition = some c → c.IsComparable

def Section.Decides (s : Section) (v : CellValue) : Prop :=
  ∃ accepted, s.claims v.toValue = .ok accepted

lemma Section.decides_of_accepts {s : Section} {v : CellValue}
    (h : ∀ c ∈ s.condition, ∃ accepted, c.accepts v.toValue = .ok accepted) : s.Decides v := by
  cases hc : s.condition with
  | none => exact ⟨false, by rw [claims, hc]⟩
  | some c =>
    obtain ⟨accepted, haccepts⟩ := h c hc
    exact ⟨accepted, by rw [claims, hc]; exact haccepts⟩

/-- A condition that can be read decides on every value but a decimal NaN, text included. -/
lemma CellValue.exists_accepts {c : Condition} (hc : c.IsComparable) {v : CellValue}
    (hv : ¬ v.IsDecimalNan) : ∃ accepted, c.accepts v.toValue = .ok accepted := by
  cases v with
  | text s => exact ⟨false, rfl⟩
  | number n => exact Condition.exists_accepts hc hv

/-- A section whose condition can be read decides on every value but a decimal NaN. -/
lemma Section.IsComparable.decides {s : Section} (hs : s.IsComparable) {v : CellValue}
    (hv : ¬ v.IsDecimalNan) : s.Decides v :=
  decides_of_accepts fun c hc => CellValue.exists_accepts (hs c hc) hv

lemma Section.claims_eq {s : Section} {v : CellValue} (h : s.Decides v) :
    s.claims v.toValue = .ok (s.accepts v) := by
  obtain ⟨accepted, haccepted⟩ := h
  rw [accepts, haccepted]

/-- The condition of a section that decides on a value accepts it if the section does. -/
lemma Section.accepts_condition {s : Section} {v : CellValue} (h : s.Decides v) {c : Condition}
    (hc : s.condition = some c) : c.accepts v.toValue = .ok (s.accepts v) := by
  have hclaims := claims_eq h
  rwa [claims, hc] at hclaims

lemma firstClaim_eq {sections : List Section} {v : CellValue}
    (hs : ∀ s ∈ sections, s.Decides v) :
    firstClaim v.toValue sections = .ok (sections.findIdx? (·.accepts v)) := by
  induction sections with
  | nil => rfl
  | cons s rest ih =>
    rw [List.forall_mem_cons] at hs
    rw [firstClaim, Section.claims_eq hs.1, ih hs.2, List.findIdx?_cons]
    cases s.accepts v <;> rfl

/-- The position of an item of either kind leads to the item. -/
lemma getElem?_or_findIdx? {α : Type} (items : List α) (p q : α → Bool) :
    ((items.findIdx? p).or (items.findIdx? q)).bind (items[·]?) =
      (items.find? p).or (items.find? q) := by
  rw [List.find?_eq_bind_findIdx?_getElem?, List.find?_eq_bind_findIdx?_getElem?]
  cases hp : items.findIdx? p with
  | none => rfl
  | some i =>
    have hi := (List.findIdx?_eq_some_iff_getElem.mp hp).1
    simp [hi]

lemma chooseByCondition_eq {sections : List Section} {n : Number}
    (hs : ∀ s ∈ sections, s.Decides (.number n)) :
    chooseByCondition sections n = .ok ((sections.findIdx? (·.accepts (.number n))).or
      (sections.findIdx? (·.condition.isNone))) := by
  rw [chooseByCondition, firstClaim_eq hs]
  cases sections.findIdx? (·.accepts (.number n)) <;> rfl

lemma chooseBySign_eq (s t : Section) (rest : List Section) {n : Number} (hn : ¬ n.IsDecimalNan) :
    ∃ i, chooseBySign (s :: t :: rest).length n = .ok i ∧
      (s :: t :: rest)[i]? = match (s :: t :: rest).length, n.sign with
        | 2, .lt | 3, .lt | 4, .lt => some t
        | 3, .eq | 4, .eq => rest.head?
        | _, _ => some s := by
  simp only [chooseBySign, Number.compareZero_strict hn (.inl rfl),
    Number.compareZero_strict hn (.inr rfl)]
  match rest with
  | [] => cases n.sign <;> exact ⟨_, rfl, rfl⟩
  | [_] => cases n.sign <;> exact ⟨_, rfl, rfl⟩
  | [_, _] => cases n.sign <;> exact ⟨_, rfl, rfl⟩
  | _ :: _ :: _ :: more =>
    refine ⟨0, ?_, ?_⟩
    · simp [pure, Except.pure]
    · simp

/-- A format of two or more sections that decide on a value selects the section that is chosen. -/
theorem Format.select_eq_chosen_of_decides {f : Format} (hlength : 2 ≤ f.sections.length)
    {v : CellValue} (hs : ∀ s ∈ f.sections, s.Decides v) (hv : ¬ v.IsDecimalNan) :
    f.select v = .ok (chosen id f.sections v) := by
  obtain ⟨sections⟩ := f
  obtain ⟨s, t, rest, rfl⟩ : ∃ s t rest, sections = s :: t :: rest := by
    match sections, hlength with
    | s :: t :: rest, _ => exact ⟨s, t, rest, rfl⟩
  cases v with
  | text text =>
    simp only [select, choose, chosen, Except.map, Option.bind_some]
    split <;> rfl
  | number n =>
    by_cases hany : Format.hasConditions ⟨s :: t :: rest⟩
    · have hchoose : choose ⟨s :: t :: rest⟩ (.number n) = chooseByCondition (s :: t :: rest) n :=
        if_pos hany
      rw [select, hchoose, chooseByCondition_eq hs]
      refine (congrArg Except.ok (getElem?_or_findIdx? _ _ _)).trans ?_
      exact congrArg Except.ok (if_pos hany).symm
    · obtain ⟨i, hi, hsection⟩ := chooseBySign_eq s t rest hv
      have hchoose : choose ⟨s :: t :: rest⟩ (.number n) = .ok (some i) :=
        (if_neg hany).trans (congrArg (Except.map some) hi)
      rw [select, hchoose]
      refine (congrArg Except.ok hsection).trans ?_
      refine Eq.trans ?_ (congrArg Except.ok (if_neg hany).symm)
      cases rest <;> rfl

/-- A format of two or more sections that can be read selects the section that is chosen. -/
theorem Format.select_eq_chosen {f : Format} (hlength : 2 ≤ f.sections.length)
    (hs : ∀ s ∈ f.sections, s.IsComparable) {v : CellValue} (hv : ¬ v.IsDecimalNan) :
    f.select v = .ok (chosen id f.sections v) :=
  select_eq_chosen_of_decides hlength (fun s hmem => (hs s hmem).decides hv) hv

/-- The section for a number depends on the conditions that accept it and on its sign only. -/
lemma Format.select_congr {f : Format} (hs : ∀ s ∈ f.sections, s.IsComparable) {m n : Number}
    (hm : ¬ m.IsDecimalNan) (hn : ¬ n.IsDecimalNan)
    (haccepts : ∀ s ∈ f.sections, s.accepts (.number m) = s.accepts (.number n))
    (hsign : m.sign = n.sign) : f.select (.number m) = f.select (.number n) := by
  by_cases hlength : 2 ≤ f.sections.length
  · have hchosen : ∀ n : Number, ¬ n.IsDecimalNan →
        f.select (.number n) = .ok (chosen id f.sections (.number n)) :=
      fun _ hn => select_eq_chosen hlength hs hn
    rw [hchosen m hm, hchosen n hn]
    exact congrArg Except.ok (chosen_congr id haccepts hsign)
  · obtain ⟨sections⟩ := f
    match sections, hlength with
    | [], _ => rfl
    | [_], _ => rfl
    | _ :: _ :: _, hlength => exact absurd (Nat.le_add_left 2 _) hlength

end FormatCode
