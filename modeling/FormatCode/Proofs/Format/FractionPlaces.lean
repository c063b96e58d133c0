import FormatCode.Proofs.Format.Layout

/-!
# Digits after the point at their places

The digits after the point are laid out from left to right, and each placeholder takes the first
digit that is left. What a part shows can be said without the walk: the digit at a placeholder is
found by the number of placeholders to its left, and only the last of them looks further, at the one
digit for which there is no place any more.

## Main definitions

* `roundsUpAt` — whether the digit after some places rounds the one before it up.
* `Placeholder.fractionText`, `Part.fractionText` — what a placeholder and a part show, by the
  placeholders to their left.

## Main statements

* `layoutFraction_drop` — the layout by places, after some placeholders.
* `layoutFraction_append` — parts after the last placeholder have no part in it.
* `layoutFraction_eq` — the layout by places, and which digits matter to it.
-/

namespace FormatCode

def roundsUpAt (digits : List Char) (places : Nat) : Bool :=
  digits[places]?.any fun next => 5 ≤ Numeral.value [next]

/-- What a placeholder after the point shows that has some placeholders to its left, of a number of
places in all: the digit as many places from the first one, if there is one. At the last place the
digit counts one more if the next one rounds it up, and a nine is then written as a ten. -/
def Placeholder.fractionText (digits : List Char) (places left : Nat) (p : Placeholder) :
    List Char :=
  match digits[left]? with
  | none => p.pad
  | some c =>
    if left + 1 = places ∧ roundsUpAt digits places then Numeral.digits (Numeral.value [c] + 1)
    else [c]

def Part.fractionText (digits : List Char) (places left : Nat) : Part → List Char
  | .placeholder p => p.fractionText digits places left
  | .percent => ['%']
  | .literal text => text.toList
  | .blank | .point => []

section layout

variable {digits : List Char}

/-- The digit at the last place is rounded by the one after it. -/
lemma lastDigit_eq (hdigits : Numeral.Plain digits) (places : Nat) (digit : Char) :
    lastDigit digit digits[places]? =
      if roundsUpAt digits places then Numeral.digits (Numeral.value [digit] + 1) else [digit] := by
  have hrounds : digits[places]?.any roundsUp = roundsUpAt digits places := by
    unfold roundsUpAt
    cases hnext : digits[places]? with
    | none => rfl
    | some next =>
      have hplain : next.isDigit := hdigits next (List.mem_of_getElem? hnext)
      rw [Option.any_some, Option.any_some, Bool.eq_iff_iff, roundsUp_iff hplain,
        decide_eq_true_iff]
  rw [lastDigit, hrounds]

/-- A placeholder takes the digit at its place, and looks at the next one if it is the last. -/
lemma layoutFraction_placeholder (hdigits : Numeral.Plain digits) (left : Nat) (p : Placeholder)
    (rest : List Part) :
    layoutFraction (digits.drop left) (.placeholder p :: rest) =
      p.fractionText digits (left + (rest.countP Part.isPlaceholder + 1)) left ++
        layoutFraction (digits.drop (left + 1)) rest := by
  unfold Placeholder.fractionText
  cases hdigit : digits[left]? with
  | none =>
    have hlength : digits.length ≤ left := List.getElem?_eq_none_iff.mp hdigit
    rw [List.drop_eq_nil_of_le hlength, List.drop_eq_nil_of_le (Nat.le_succ_of_le hlength),
      layoutFraction]
  | some digit =>
    have hdrop : digits.drop left = digit :: digits.drop (left + 1) := by
      rw [List.drop_eq_getElem?_toList_append, hdigit, Option.toList_some, List.singleton_append]
    have hhead : (digits.drop (left + 1)).head? = digits[left + 1]? := List.head?_drop
    rw [hdrop, layoutFraction, hhead, lastDigit_eq hdigits]
    by_cases hrest : rest.any Part.isPlaceholder
    · -- Another placeholder follows, so this one is not the last.
      have hcount : 0 < rest.countP Part.isPlaceholder := by
        simpa [List.countP_pos_iff] using hrest
      have hplaces : left + 1 ≠ left + (rest.countP Part.isPlaceholder + 1) := by omega
      simp only [hrest, hplaces, if_true, false_and, if_false]
    · have hcount : rest.countP Part.isPlaceholder = 0 := by
        simpa [List.countP_eq_zero] using hrest
      simp only [hrest, hcount, Nat.zero_add, true_and, if_false, Bool.false_eq_true]

/-- After some placeholders the rest of the digits is laid out by places. -/
theorem layoutFraction_drop (hdigits : Numeral.Plain digits) (parts : List Part) (left : Nat) :
    layoutFraction (digits.drop left) parts =
      (parts.mapIdx fun k part =>
        part.fractionText digits (left + parts.countP Part.isPlaceholder)
          (left + (parts.take k).countP Part.isPlaceholder)).flatten := by
  induction parts generalizing left with
  | nil => rfl
  | cons part rest ih =>
    rw [List.mapIdx_cons, List.flatten_cons]
    cases part with
    | placeholder p =>
      have hcount : ∀ parts : List Part, (Part.placeholder p :: parts).countP Part.isPlaceholder =
          parts.countP Part.isPlaceholder + 1 := fun parts => List.countP_cons_of_pos rfl
      rw [layoutFraction_placeholder hdigits, ih (left + 1)]
      simp only [List.take_succ_cons, hcount, List.take_zero, List.countP_nil, Nat.add_zero,
        Nat.add_right_comm left 1, Nat.add_assoc, Part.fractionText]
    | _ =>
      rw [layoutFraction, ih left]
      rfl

/-- Parts without placeholders do not look at the digits. -/
lemma layoutFraction_of_not_isPlaceholder {parts : List Part}
    (hparts : ∀ part ∈ parts, ¬ part.isPlaceholder) (digits : List Char) :
    layoutFraction digits parts = layoutFraction [] parts := by
  induction parts with
  | nil => rfl
  | cons part rest ih =>
    rw [List.forall_mem_cons] at hparts
    cases part with
    | placeholder p => exact absurd rfl hparts.1
    | _ => simp only [layoutFraction, ih hparts.2]

/-- Parts after the last placeholder show what they show without digits, and leave the digits before
them as they are. -/
theorem layoutFraction_append {tail : List Part} (htail : ∀ part ∈ tail, ¬ part.isPlaceholder)
    (digits : List Char) (parts : List Part) :
    layoutFraction digits (parts ++ tail) =
      layoutFraction digits parts ++ layoutFraction [] tail := by
  induction parts generalizing digits with
  | nil => exact layoutFraction_of_not_isPlaceholder htail digits
  | cons part rest ih =>
    have hany : (rest ++ tail).any Part.isPlaceholder = rest.any Part.isPlaceholder := by
      simpa using fun part hpart hplaceholder => absurd hplaceholder (htail part hpart)
    cases part with
    | placeholder p =>
      cases digits <;> simp only [List.cons_append, layoutFraction, hany, ih, List.append_assoc]
    | _ => simp only [List.cons_append, layoutFraction, ih, List.append_assoc]

/-- A placeholder has fewer placeholders to its left than there are. -/
lemma countP_take_lt {parts : List Part} {k : Nat} (hk : k < parts.length)
    (hpart : parts[k].isPlaceholder) :
    (parts.take k).countP Part.isPlaceholder < parts.countP Part.isPlaceholder := by
  have hnext : (parts.take (k + 1)).countP Part.isPlaceholder =
      (parts.take k).countP Part.isPlaceholder + 1 := by
    rw [List.take_succ_eq_append_getElem hk, List.countP_append, List.countP_singleton,
      if_pos hpart]
  have hle := (List.take_sublist (k + 1) parts).countP_le (p := Part.isPlaceholder)
  omega

/-- What a part shows depends on the digits for which there are places, and on whether the one after
them rounds up. -/
lemma Part.fractionText_congr {digits' : List Char} {places left : Nat} {part : Part}
    (hleft : part.isPlaceholder → left < places)
    (hplaces : digits'.take places = digits.take places)
    (hrounds : roundsUpAt digits' places = roundsUpAt digits places) :
    part.fractionText digits' places left = part.fractionText digits places left := by
  cases part with
  | placeholder p =>
    have hdigit : digits'[left]? = digits[left]? := by
      rw [← List.getElem?_take_of_lt (hleft rfl), hplaces, List.getElem?_take_of_lt (hleft rfl)]
    simp only [Part.fractionText, Placeholder.fractionText, hdigit, hrounds]
  | _ => rfl

/-- The digits after the point are laid out by places: each placeholder shows the digit at its
place, or what it shows without one, and the last of them rounds its digit up, without a carry, if a
digit of five or more follows. The other digits do not matter, nor do parts after the last
placeholder. -/
theorem layoutFraction_eq (hdigits : Numeral.Plain digits) (parts : List Part) :
    layoutFraction digits parts =
        (parts.mapIdx fun k part =>
          part.fractionText digits (parts.countP Part.isPlaceholder)
            ((parts.take k).countP Part.isPlaceholder)).flatten ∧
      (∀ digits', Numeral.Plain digits' →
        digits'.take (parts.countP Part.isPlaceholder) =
          digits.take (parts.countP Part.isPlaceholder) →
        roundsUpAt digits' (parts.countP Part.isPlaceholder) =
          roundsUpAt digits (parts.countP Part.isPlaceholder) →
        layoutFraction digits' parts = layoutFraction digits parts) ∧
      ∀ tail : List Part, (∀ part ∈ tail, ¬ part.isPlaceholder) →
        layoutFraction digits (parts ++ tail) =
          layoutFraction digits parts ++ layoutFraction [] tail := by
  have hlayout : ∀ {digits}, Numeral.Plain digits → layoutFraction digits parts =
      (parts.mapIdx fun k part =>
        part.fractionText digits (parts.countP Part.isPlaceholder)
          ((parts.take k).countP Part.isPlaceholder)).flatten := by
    intro digits hdigits
    simpa using layoutFraction_drop hdigits parts 0
  refine ⟨hlayout hdigits, fun digits' hdigits' hplaces hrounds => ?_,
    fun tail htail => layoutFraction_append htail digits parts⟩
  rw [hlayout hdigits, hlayout hdigits', List.mapIdx_eq_mapIdx_iff.mpr]
  intro k hk
  exact Part.fractionText_congr (countP_take_lt hk) hplaces hrounds

/-- A nine at the last place is rounded to a ten, whatever stands after it. -/
theorem layoutFraction_eq_nine :
    Numeral.Plain ['0', '9', '5', '1'] ∧
      layoutFraction ['0', '9', '5', '1']
        [.placeholder .zero, .literal "x", .point, .placeholder .space, .percent, .literal "y"] =
          "0x10%y".toList ∧
      layoutFraction ['0', '9', '7']
        [.placeholder .zero, .literal "x", .point, .placeholder .space, .percent, .literal "y"] =
          "0x10%y".toList := by
  have hplain : Numeral.Plain ['0', '9', '5', '1'] := by simp
  obtain ⟨hlayout, hsame, -⟩ := layoutFraction_eq hplain
    [.placeholder .zero, .literal "x", .point, .placeholder .space, .percent, .literal "y"]
  have hshown := hlayout.trans (by decide : _ = "0x10%y".toList)
  exact ⟨hplain, hshown, (hsame ['0', '9', '7'] (by simp) rfl rfl).trans hshown⟩

end layout

end FormatCode
