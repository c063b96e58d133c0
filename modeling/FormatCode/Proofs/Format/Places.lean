import FormatCode.Format.Layout
import Mathlib.Tactic.Lemma

/-!
# Digits at their places

The digits before the point are laid out from right to left, with the digits that are left, the
number of digits shown and the text so far carried along. Read from left to right the layout needs
nothing of this: what a placeholder shows follows from how many placeholders stand to its right, and
whether a comma follows a digit from how many digits are shown to its right.

## Main definitions

* `concatByRest` — a list put together from what each item of another one makes of the items after
  it.
* `Piece`, `Piece.shown` — the digits and other texts of a layout, and the commas among them.
* `Placeholder.pieces`, `Part.pieces` — what a placeholder and a part show, by the placeholders to
  their right.

## Main statements

* `Walk.HasLaidOut.place`, `Walk.hasLaidOut_steps` — what one placeholder and all parts lay out.
* `layoutWhole_eq` — the layout by places.
-/

namespace FormatCode

/-- What each item of a list makes of the items to its right, one after the other. -/
def concatByRest {α β : Type} (f : α → List α → List β) : List α → List β
  | [] => []
  | a :: rest => f a rest ++ concatByRest f rest

/-- What is put together depends only on what the items make of those after them. -/
lemma concatByRest_congr {α β : Type} {f g : α → List α → List β} {items : List α}
    (h : ∀ a ∈ items, ∀ rest, f a rest = g a rest) :
    concatByRest f items = concatByRest g items := by
  induction items with
  | nil => rfl
  | cons a rest ih =>
    rw [List.forall_mem_cons] at h
    rw [concatByRest, concatByRest, h.1, ih h.2]

/-! ## Pieces -/

/-- A piece of a layout: a digit that is counted, or text that is not. -/
inductive Piece
  | digit (c : Char)
  | text (t : List Char)

namespace Piece

def isDigit : Piece → Bool
  | digit _ => true
  | text _ => false

/-- A piece as it is shown. Where digits are grouped, a comma follows a digit that has three digits
or a multiple to its right. -/
def shown (grouped : Bool) (piece : Piece) (right : List Piece) : List Char :=
  match piece with
  | digit c =>
    if grouped ∧ 0 < right.countP isDigit ∧ 3 ∣ right.countP isDigit then [c, ','] else [c]
  | text t => t

end Piece

/-- What a placeholder shows without a digit. A zero is counted as a digit, a space is not. -/
def Placeholder.padPieces : Placeholder → List Piece
  | .digit => []
  | .zero => [.digit '0']
  | .space => [.text [' ']]

/-- What a placeholder shows that has some placeholders to its right: the digit as many places from
the last one, if there is one. -/
def Placeholder.pieces (digits : List Char) (right : Nat) (p : Placeholder) : List Piece :=
  if h : right < digits.length then [.digit digits[digits.length - 1 - right]] else p.padPieces

/-- What a part shows, given all digits, how many placeholders there are and the parts to the right
of it. The leftmost placeholder is preceded by the digits for which there is no placeholder. -/
def Part.pieces (digits : List Char) (places : Nat) (part : Part) (right : List Part) :
    List Piece :=
  match part with
  | .placeholder p =>
    (if right.countP Part.isPlaceholder + 1 = places then
      (digits.take (digits.length - places)).map Piece.digit else []) ++
      p.pieces digits (right.countP Part.isPlaceholder)
  | .percent => [.text ['%']]
  | .literal text => [.text text.toList]
  | .blank | .point => []

/-! ## What is laid out -/

namespace Walk

/-- Whether a walk has laid out some pieces: their digits are counted, and their text is shown. -/
structure HasLaidOut (grouped : Bool) (pieces : List Piece) (w : Walk) : Prop where
  shown_eq : w.shown = pieces.countP Piece.isDigit
  text_eq : w.text = concatByRest (Piece.shown grouped) pieces

variable {grouped : Bool} {pieces : List Piece} {w : Walk}

/-- Showing a digit lays it out in front. -/
lemma HasLaidOut.emit (h : w.HasLaidOut grouped pieces) (c : Char) :
    (w.emit grouped c).HasLaidOut grouped (.digit c :: pieces) := by
  refine ⟨?_, ?_⟩
  · rw [List.countP_cons_of_pos rfl, ← h.shown_eq]
    rfl
  · have hcomma : (grouped && w.shown != 0 && w.shown % 3 == 0) = true ↔
        grouped ∧ 0 < pieces.countP Piece.isDigit ∧ 3 ∣ pieces.countP Piece.isDigit := by
      rw [← h.shown_eq]
      simp [Nat.pos_iff_ne_zero, Nat.dvd_iff_mod_eq_zero, and_assoc]
    rw [concatByRest, Piece.shown, ← h.text_eq, Walk.emit]
    by_cases hdigits : grouped ∧ 0 < pieces.countP Piece.isDigit ∧ 3 ∣ pieces.countP Piece.isDigit
    · rw [if_pos hdigits, if_pos (hcomma.mpr hdigits)]
      rfl
    · rw [if_neg hdigits, if_neg (mt hcomma.mp hdigits)]
      rfl

/-- Text that is not counted is laid out in front as it is. -/
lemma HasLaidOut.text (h : w.HasLaidOut grouped pieces) (t : List Char) :
    HasLaidOut grouped (.text t :: pieces) { w with text := t ++ w.text } := by
  refine ⟨?_, ?_⟩
  · rw [List.countP_cons_of_neg (by simp [Piece.isDigit])]
    exact h.shown_eq
  · rw [concatByRest, ← h.text_eq]
    rfl

/-- Showing all digits that are left lays them out in front. -/
lemma HasLaidOut.flush (h : w.HasLaidOut grouped pieces) :
    (w.flush grouped).HasLaidOut grouped (w.pending.reverse.map .digit ++ pieces) := by
  have hfold : ∀ (ds : List Char) {w : Walk} {pieces : List Piece}, w.HasLaidOut grouped pieces →
      (ds.foldl (Walk.emit grouped) w).HasLaidOut grouped (ds.reverse.map .digit ++ pieces) := by
    intro ds
    induction ds with
    | nil => exact fun h => h
    | cons c ds ih =>
      intro w pieces h
      have hrest := ih (h.emit c)
      rwa [List.reverse_cons, List.map_append, List.append_assoc]
  have hall := hfold w.pending h
  exact ⟨hall.shown_eq, hall.text_eq⟩

variable {digits : List Char}

/-- A placeholder lays out the digit at its place, and leaves those to the left of it. -/
lemma HasLaidOut.place (h : w.HasLaidOut grouped pieces) {right : Nat}
    (hpending : w.pending = digits.reverse.drop right) (p : Placeholder) :
    (w.place grouped p).HasLaidOut grouped (p.pieces digits right ++ pieces) ∧
      (w.place grouped p).pending = digits.reverse.drop (right + 1) := by
  obtain ⟨pending, shown, text⟩ := w
  obtain rfl : pending = digits.reverse.drop right := hpending
  by_cases hright : right < digits.length
  · have hreverse : right < digits.reverse.length := by rwa [List.length_reverse]
    have hrest : HasLaidOut grouped pieces ⟨digits.reverse.drop (right + 1), shown, text⟩ :=
      ⟨h.shown_eq, h.text_eq⟩
    rw [List.drop_eq_getElem_cons hreverse, List.getElem_reverse, Placeholder.pieces,
      dif_pos hright]
    exact ⟨hrest.emit _, rfl⟩
  · -- No digit is left for the placeholder.
    have hlength : digits.reverse.length ≤ right := by simpa using hright
    rw [List.drop_eq_nil_of_le hlength] at h ⊢
    rw [Placeholder.pieces, dif_neg hright, List.drop_eq_nil_of_le (by omega)]
    cases p with
    | digit => exact ⟨h, rfl⟩
    | zero => exact ⟨h.emit '0', rfl⟩
    | space => exact ⟨h.text [' '], rfl⟩

/-- The parts lay out what each of them shows. As long as there are placeholders to their left, the
digits without a placeholder among them are left. -/
theorem hasLaidOut_steps (digits : List Char) {places : Nat} {parts : List Part}
    (hplaces : parts.countP Part.isPlaceholder ≤ places) (leftmost : Bool)
    (hleftmost : leftmost = decide (parts.countP Part.isPlaceholder = places)) :
    (Walk.steps grouped { pending := digits.reverse } leftmost parts).HasLaidOut grouped
        (concatByRest (Part.pieces digits places) parts) ∧
      (parts.countP Part.isPlaceholder < places →
        (Walk.steps grouped { pending := digits.reverse } leftmost parts).pending =
          digits.reverse.drop (parts.countP Part.isPlaceholder)) := by
  induction parts generalizing leftmost with
  | nil => exact ⟨⟨rfl, rfl⟩, fun _ => rfl⟩
  | cons part rest ih =>
    by_cases hpart : part.isPlaceholder
    · obtain ⟨p, rfl⟩ : ∃ p, part = .placeholder p := by
        cases part with
        | placeholder p => exact ⟨p, rfl⟩
        | _ => cases hpart
      rw [List.countP_cons_of_pos hpart] at hplaces hleftmost ⊢
      obtain ⟨hrest, hpending⟩ := ih (by omega) false (by simp; omega)
      obtain ⟨hplaced, hleft⟩ := hrest.place (hpending (by omega)) p
      have hsteps : Walk.steps grouped { pending := digits.reverse } leftmost
          (.placeholder p :: rest) =
          (Walk.steps grouped { pending := digits.reverse } false rest).step grouped leftmost
            (.placeholder p) := by
        rw [steps, hpart, Bool.not_true, Bool.and_false]
      rw [hsteps, concatByRest, Part.pieces, Walk.step]
      by_cases hlast : rest.countP Part.isPlaceholder + 1 = places
      · -- The leftmost placeholder takes all digits that are left.
        have hfront : digits.take (digits.length - places) =
            (Walk.place grouped p (.steps grouped { pending := digits.reverse } false
              rest)).pending.reverse := by
          rw [hleft, hlast, List.drop_reverse, List.reverse_reverse]
        rw [hleftmost, if_pos (decide_eq_true hlast), if_pos hlast, List.append_assoc, hfront]
        exact ⟨hplaced.flush, fun hlt => absurd hlast (Nat.ne_of_lt hlt)⟩
      · have hfalse : ¬ leftmost = true := by simpa [hleftmost] using hlast
        rw [if_neg hfalse, if_neg hlast, List.nil_append]
        exact ⟨hplaced, fun _ => hleft⟩
    · rw [List.countP_cons_of_neg hpart] at hplaces hleftmost ⊢
      obtain ⟨hrest, hpending⟩ := ih hplaces leftmost hleftmost
      rw [steps, Bool.eq_false_iff.mpr hpart, Bool.not_false, Bool.and_true, concatByRest]
      cases part with
      | placeholder p => exact absurd rfl hpart
      | percent => exact ⟨hrest.text ['%'], hpending⟩
      | literal text => exact ⟨hrest.text text.toList, hpending⟩
      | blank | point => exact ⟨hrest, hpending⟩

end Walk

/-- The digits before the point are laid out by places. A placeholder shows the digit as many places
from the last one as there are placeholders to its right, or what it shows without one, and the
leftmost of them is preceded by the digits for which there is no placeholder. Where digits are
grouped, a comma follows each digit with a positive multiple of three digits to its right. Without
placeholders the digits do not matter. -/
theorem layoutWhole_eq (digits : List Char) (parts : List Part) (grouped : Bool) :
    layoutWhole digits parts grouped =
        concatByRest (Piece.shown grouped)
          (concatByRest (Part.pieces digits (parts.countP Part.isPlaceholder)) parts) ∧
      (parts.countP Part.isPlaceholder = 0 →
        layoutWhole digits parts grouped = layoutWhole [] parts grouped) := by
  have hlayout : ∀ digits, layoutWhole digits parts grouped =
      concatByRest (Piece.shown grouped)
        (concatByRest (Part.pieces digits (parts.countP Part.isPlaceholder)) parts) :=
    fun digits => (Walk.hasLaidOut_steps digits (Nat.le_refl _) _ (by simp)).1.text_eq
  refine ⟨hlayout digits, fun hnone => ?_⟩
  have hpieces : ∀ part ∈ parts, ∀ right,
      part.pieces digits (parts.countP Part.isPlaceholder) right =
        part.pieces [] (parts.countP Part.isPlaceholder) right := by
    intro part hpart right
    cases part with
    | placeholder p => exact absurd rfl (List.countP_eq_zero.mp hnone _ hpart)
    | _ => rfl
  rw [hlayout, hlayout, concatByRest_congr hpieces]

end FormatCode
