import FormatCode.Format.Display
import Mathlib.Tactic.Lemma

/-!
# What can be seen of a format

The scale of a section and the sign of its exponent are recorded only. A format shows every value as
it does without them, and goes wrong where it does without them, whatever its conditions.

## Main definitions

* `Section.visible`, `Format.visible` — sections and formats without what is recorded only.

## Main statements

* `Format.verdict_visible` — the same section is chosen.
* `Format.render_congr` — formats that look the same show the same.
-/

namespace FormatCode

def Section.visible (s : Section) : Section := { s with scale := 1, scientific := none }

def Verdict.visible : Verdict → Verdict
  | applies s => applies s.visible
  | unmatched => unmatched
  | rejected c => rejected c

lemma firstClaim_visible (v : Value) (sections : List Section) :
    firstClaim v (sections.map Section.visible) = firstClaim v sections := by
  induction sections with
  | nil => rfl
  | cons s rest ih =>
    have hclaims : s.visible.claims v = s.claims v := rfl
    rw [List.map_cons, firstClaim, firstClaim, hclaims, ih]

lemma chooseByCondition_visible (sections : List Section) (n : Number) :
    chooseByCondition (sections.map Section.visible) n = chooseByCondition sections n := by
  have hfind : (sections.map Section.visible).findIdx? (·.condition.isNone) =
      sections.findIdx? (·.condition.isNone) := List.findIdx?_map ..
  rw [chooseByCondition, chooseByCondition, firstClaim_visible, hfind]

namespace Format

def visible (f : Format) : Format := ⟨f.sections.map Section.visible⟩

variable (f : Format) (v : CellValue)

lemma hasConditions_visible : f.visible.hasConditions = f.hasConditions := List.any_map

lemma choose_visible : f.visible.choose v = f.choose v := by
  obtain ⟨sections⟩ := f
  match sections, v with
  | [], _ => rfl
  | [_], _ => rfl
  | s :: t :: rest, .text text =>
    simp only [choose, visible, List.map_cons, List.length_cons, List.length_map]
  | s :: t :: rest, .number n =>
    have hconditions := hasConditions_visible ⟨s :: t :: rest⟩
    have hchoose := chooseByCondition_visible (s :: t :: rest) n
    simp only [visible, List.map_cons] at hconditions hchoose
    simp only [choose, visible, List.map_cons, List.length_cons, List.length_map, hconditions,
      hchoose]

lemma select_visible : f.visible.select v = (f.select v).map (Option.map Section.visible) := by
  rw [select, select, choose_visible]
  cases f.choose v with
  | error e => rfl
  | ok position =>
    cases position with
    | none => rfl
    | some i => exact congrArg Except.ok List.getElem?_map

/-- What becomes of a value does not depend on what is recorded only. -/
theorem verdict_visible : f.visible.verdict v = (f.verdict v).map Verdict.visible := by
  rw [verdict, verdict, select_visible]
  cases f.select v with
  | error e => rfl
  | ok selected =>
    cases selected with
    | none => rfl
    | some s =>
      have hcondition : s.visible.condition = s.condition := rfl
      simp only [Except.map, Option.map, bind, Except.bind, hcondition]
      cases s.condition with
      | none => rfl
      | some c =>
        dsimp only
        cases c.accepts v.toValue with
        | error e => rfl
        | ok accepted => cases accepted <;> rfl

lemma renderCell_visible : f.visible.renderCell v = f.renderCell v := by
  rw [renderCell, renderCell, verdict_visible]
  cases f.verdict v with
  | error e => rfl
  | ok verdict =>
    cases verdict with
    | applies s => cases v <;> rfl
    | unmatched => rfl
    | rejected c => rfl

/-- Formats that differ at most in what is recorded only show every value alike. -/
theorem render_congr {f f' : Format} (h : f.visible = f'.visible) (v : Value) :
    f.render v = f'.render v := by
  have hcell : f.renderCell = f'.renderCell := by
    funext v
    rw [← renderCell_visible f, h, renderCell_visible]
  rw [render, render, hcell]

end Format

end FormatCode
