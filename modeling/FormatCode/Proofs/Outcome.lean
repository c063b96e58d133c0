import Mathlib.Tactic.Lemma

/-!
# Results that are mapped and chained

What an operation that may fail comes to when its result is mapped, or handed to another one. A test
that never fails tells whether something holds.

## Main definitions

* `Tells` — whether a test gives the truth of a proposition.

## Main statements

* `Except.map_eq_error_iff`, `Except.map_eq_ok_iff` — the outcome of a mapped result.
* `Except.bind_eq_ok_iff` — the results of two operations in a row.
* `Tells.and` — two tests one after the other tell whether both propositions hold.
-/

namespace FormatCode

namespace Except

variable {ε α β : Type} {x : Except ε α}

lemma map_eq_error_iff {g : α → β} {e : ε} : x.map g = .error e ↔ x = .error e := by
  cases x <;> simp [Except.map]

lemma map_eq_ok_iff {g : α → β} {b : β} : x.map g = .ok b ↔ ∃ a, x = .ok a ∧ g a = b := by
  cases x <;> simp [Except.map]

lemma bind_eq_ok_iff {g : α → Except ε β} {b : β} :
    x.bind g = .ok b ↔ ∃ a, x = .ok a ∧ g a = .ok b := by
  cases x <;> simp [Except.bind]

end Except

/-! ## Tests -/

/-- Whether a test gives the truth of a proposition, without a fault. -/
def Tells {ε : Type} (test : Except ε Bool) (P : Prop) : Prop := ∃ b, test = .ok b ∧ (b = true ↔ P)

namespace Tells

variable {ε : Type} {test test' : Except ε Bool} {P Q : Prop}

lemma of_true (h : P) : Tells (.ok true : Except ε Bool) P := ⟨true, rfl, iff_of_true rfl h⟩

lemma of_false (h : ¬ P) : Tells (.ok false : Except ε Bool) P :=
  ⟨false, rfl, iff_of_false Bool.false_ne_true h⟩

lemma congr (h : Tells test P) (hPQ : P ↔ Q) : Tells test Q := by
  obtain ⟨b, htest, hb⟩ := h
  exact ⟨b, htest, hb.trans hPQ⟩

/-- The second of two tests is made only if the first holds. -/
lemma and (h : Tells test P) (h' : P → Tells test' Q) :
    Tells (do if ← test then test' else pure false) (P ∧ Q) := by
  obtain ⟨b, rfl, hb⟩ := h
  cases b with
  | true =>
    have hP := hb.mp rfl
    exact (h' hP).congr (by simp [hP])
  | false => exact of_false fun h => Bool.false_ne_true (hb.mpr h.1)

lemma ite [Decidable P] (h : Tells test Q) :
    Tells (if P then test else .ok false) (P ∧ Q) := by
  split
  · next hP => exact h.congr (by simp [hP])
  · next hP => exact of_false fun h => hP h.1

end Tells

end FormatCode
