import FormatCode.Proofs.Binary64.Printer
import FormatCode.Proofs.Format.Verdict

/-!
# Binary numbers and their spelling

A finite binary number is shown with the digits of its shortest decimal, and so is the decimal that
its text is read as. The two are shown alike unless percent signs come between them: the binary
number is multiplied in binary arithmetic and rounded there, and what is shown is the spelling of
the product, which need not have the digits of the number.

## Main definitions

* `Binary64.Spells` — whether a decimal is what the text of a binary number is read as.
* `Section.MovesPoint` — whether the percent signs of a section only move the point of a spelling.

## Main statements

* `Section.showNumber_spelling` — a section shows the spelling of the product.
* `Format.renderCell_spelling` — binary numbers and their spellings are shown alike.
* `render_spelling` — the same, for the text of a format.
* `render_percent` — a percentage with another digit than the spelling.
-/

namespace FormatCode

/-! ## Spellings -/

namespace Binary64

def Spells (x : Binary64) (d : Decimal) : Prop :=
  x.isFinite ∧ Decimal.ofText? (String.ofList x.text) = some d

variable {x : Binary64} {d : Decimal}

/-- Every finite binary number has a spelling. -/
theorem exists_spells (hx : x.isFinite) : ∃ d, x.Spells d := by
  cases x with
  | finite negative bits =>
    obtain ⟨c, e, htext, -⟩ := exists_ofText?_text negative bits
    exact ⟨_, rfl, htext⟩
  | _ => cases hx

/-- A spelling has the sign of the number and is worth its shortest decimal. -/
theorem Spells.exists_eq (h : x.Spells d) :
    ∃ (negative : Bool) (bits : Fin (2047 * 2 ^ 52)) (c : Nat) (e : Int),
      x = .finite negative bits ∧ d = .finite negative c e ∧
        (c : ℚ) * 10 ^ e = (shortest bits).1 * 10 ^ (shortest bits).2 := by
  obtain ⟨hfinite, hread⟩ := h
  cases x with
  | finite negative bits =>
    obtain ⟨c, e, htext, hvalue⟩ := exists_ofText?_text negative bits
    exact ⟨negative, bits, c, e, rfl, Option.some.inj (hread.symm.trans htext), hvalue⟩
  | _ => cases hfinite

lemma Spells.sign_eq (h : x.Spells d) : (Number.float x).sign = (Number.decimal d).sign := by
  obtain ⟨negative, bits, c, e, rfl, rfl, hvalue⟩ := h.exists_eq
  have hzero : bits.val = 0 ↔ c = 0 := by
    have hten : ∀ e : Int, (10 : ℚ) ^ e ≠ 0 := fun e => (Decimal.ten_zpow_pos e).ne'
    rw [← shortest_eq_zero_iff, ← Nat.cast_inj (R := ℚ), ← Nat.cast_inj (R := ℚ) (m := c),
      Nat.cast_zero]
    rw [← mul_eq_zero_iff_right (hten (shortest bits).2), ← hvalue, mul_eq_zero_iff_right (hten e)]
  simp only [Number.sign, Decimal.sign, hzero]

/-- A number and its spelling are related to zero alike. -/
lemma Spells.compareZero_eq (h : x.Spells d) (c : Comparison) :
    (Number.float x).compareZero c = (Number.decimal d).compareZero c := by
  have hsign := h.sign_eq
  obtain ⟨negative, bits, c, e, rfl, rfl, -⟩ := h.exists_eq
  have hx : ¬ (Number.float (.finite negative bits)).IsNan := nofun
  have hd : ¬ (Number.decimal (.finite negative c e)).IsNan := id
  rw [Number.compareZero_eq hx, Number.compareZero_eq hd, hsign]

lemma Spells.compareZero_less (h : x.Spells d) :
    (Number.float x).compareZero .less = .ok (decide (d.toRat < 0)) := by
  rw [h.compareZero_eq]
  obtain ⟨negative, bits, c, e, rfl, rfl, -⟩ := h.exists_eq
  exact Number.compareZero_less (n := .decimal (.finite negative c e)) rfl

/-- A decimal of the value of a shortest decimal is written out like it. -/
lemma positional_decimal (negative : Bool) {bits : Fin (2047 * 2 ^ 52)} {c : Nat} {e : Int}
    (h : (c : ℚ) * 10 ^ e = (shortest bits).1 * 10 ^ (shortest bits).2) :
    (Number.decimal (.finite negative c e)).positional =
      .ok (Decimal.finite negative (shortest bits).1 (shortest bits).2).positional := by
  have hheld : Decimal.IsHeld (c * 10 ^ e) := h ▸ isHeld_shortest bits
  obtain ⟨c', e', hnormalize, hvalue, hcanonical⟩ := Decimal.exists_normalize_eq negative hheld
  obtain ⟨rfl, rfl⟩ := hcanonical.unique (isCanonical_shortest bits) (hvalue.trans h)
  rw [Number.positional, hnormalize]
  rfl

end Binary64

/-! ## What a section shows -/

namespace Section

variable {s : Section} {x y : Binary64} {d dy : Decimal}

/-- Whether the number that the percent signs of a section make of a binary number has the spelling
of that number with the point moved. -/
def MovesPoint (s : Section) (x : Binary64) (d : Decimal) : Prop :=
  ∃ y dy, s.scaled (.float x) = .ok (.float y) ∧ y.Spells dy ∧
    |dy.toRat| = |d.toRat| * 100 ^ s.percentCount

lemma showNumber_eq {n m : Number} {negative : Bool} {written : Positional} (hn : n.isFinite)
    (hnegative : n.compareZero .less = .ok negative) (hscaled : s.scaled n = .ok m)
    (hwritten : m.positional = .ok written) :
    s.showNumber n = .ok (s.layout negative written) := by
  rw [showNumber_of_isFinite hn hnegative, hscaled, Except.bind, hwritten, Except.map]

/-- The sign that a number is written out with is not shown. -/
lemma layout_positional (s : Section) (negative sign : Bool) (n : Nat) (k : Int) :
    s.layout negative (Decimal.finite sign n k).positional =
      s.layout negative (Decimal.finite false n k).positional := by
  cases k <;> rfl

/-- A section shows a binary number with the digits that the product has in its spelling. -/
theorem showNumber_spelling (hx : x.isFinite) (hscaled : s.scaled (.float x) = .ok (.float y))
    (hy : y.Spells dy) {negative : Bool}
    (hnegative : (Number.float x).compareZero .less = .ok negative) :
    ∃ written, (Number.decimal dy).positional = .ok written ∧
      s.showNumber (.float x) = .ok (s.layout negative written) := by
  obtain ⟨sign, bits, c, e, rfl, rfl, hvalue⟩ := hy.exists_eq
  refine ⟨_, Binary64.positional_decimal sign hvalue, ?_⟩
  exact showNumber_eq hx hnegative hscaled rfl

/-- Without percent signs nothing is moved. -/
lemma movesPoint_of_percentCount_eq_zero (h : x.Spells d) (hs : s.percentCount = 0) :
    s.MovesPoint x d := by
  obtain ⟨negative, bits, c, e, rfl, rfl, hvalue⟩ := h.exists_eq
  obtain ⟨dy, hdy⟩ := Binary64.exists_spells (x := .finite false bits) rfl
  refine ⟨.finite false bits, dy, ?_, hdy, ?_⟩
  · simp [scaled, Number.magnitude, Binary64.abs, hs, bind, Except.bind, pure, Except.pure]
  · obtain ⟨negative', bits', c', e', heq, rfl, hvalue'⟩ := hdy.exists_eq
    obtain ⟨rfl, rfl⟩ := Binary64.finite.inj heq
    rw [Decimal.abs_toRat_finite, Decimal.abs_toRat_finite, hvalue, hvalue', hs, pow_zero, mul_one]

/-- Where the percent signs only move the point, a section shows a number and its spelling alike. -/
theorem showNumber_decimal (h : x.Spells d) (hs : s.MovesPoint x d) :
    s.showNumber (.float x) = s.showNumber (.decimal d) := by
  obtain ⟨y, dy, hscaled, hy, hmoved⟩ := hs
  have hcompare := h.compareZero_eq .less
  obtain ⟨negative, bits, c, e, rfl, rfl, hvalue⟩ := h.exists_eq
  obtain ⟨sign, bits', c', e', rfl, rfl, hvalue'⟩ := hy.exists_eq
  rw [Decimal.abs_toRat_finite, Decimal.abs_toRat_finite, hvalue'] at hmoved
  have hheld : Decimal.IsHeld (c * 10 ^ e) := hvalue ▸ Binary64.isHeld_shortest bits
  have hheld' : Decimal.IsHeld (c * 10 ^ e * 100 ^ s.percentCount) :=
    hmoved ▸ Binary64.isHeld_shortest bits'
  obtain ⟨c₂, e₂, hscaled', hvalue₂⟩ := exists_scaled_decimal negative hheld hheld'
  have hwritten := Binary64.positional_decimal false (hvalue₂.trans hmoved.symm)
  have hnan : ¬ (Number.float (.finite negative bits)).IsNan := nofun
  have hnegative := Number.compareZero_eq hnan .less
  rw [showNumber_eq rfl hnegative hscaled rfl,
    showNumber_eq rfl (hcompare ▸ hnegative) hscaled' hwritten]
  exact congrArg Except.ok (layout_positional s _ sign _ _)

end Section

/-- Without a section a number and its spelling are shown alike. -/
lemma Number.plainText_decimal {x : Binary64} {d : Decimal} (h : x.Spells d) :
    (Number.float x).plainText = (Number.decimal d).plainText := by
  have hcompare := h.compareZero_eq .less
  obtain ⟨negative, bits, c, e, rfl, rfl, hvalue⟩ := h.exists_eq
  have hheld : Decimal.IsHeld (c * 10 ^ e) := hvalue ▸ Binary64.isHeld_shortest bits
  obtain ⟨c₁, e₁, habs, hvalue₁⟩ := Decimal.exists_abs_eq negative hheld
  have hwritten := Binary64.positional_decimal false (hvalue₁.trans hvalue)
  simp only [plainText, isFinite, Binary64.isFinite, Decimal.isFinite, if_true, hcompare, magnitude,
    habs, Except.map, bind, Except.bind, hwritten]
  rfl

/-! ## What a format shows -/

namespace Format

variable {f : Format}

/-- Without conditions a number and its spelling have one section. -/
lemma select_spelling (hf : f.hasConditions = false) {x : Binary64} {d : Decimal}
    (h : x.Spells d) : f.select (.number (.float x)) = f.select (.number (.decimal d)) := by
  have hcondition := fun s hs => condition_eq_none (s := s) hf hs
  have hnan : ¬ d.IsNan := by
    obtain ⟨negative, bits, c, e, rfl, rfl, -⟩ := h.exists_eq
    exact id
  refine select_congr ?_ id hnan ?_ h.sign_eq
  · intro s hs c hc
    rw [hcondition s hs] at hc
    cases hc
  · intro s hs
    simp only [Section.accepts, Section.claims, hcondition s hs]

/-- Without conditions a value is shown by its section, or as it is if there is none. -/
lemma renderCell_eq (hf : f.hasConditions = false) {v : CellValue} {selected : Option Section}
    (hselect : f.select v = .ok selected) :
    f.renderCell v = match selected with
      | some s => (s.showCell v).map fun text => ⟨String.ofList text, s.color⟩
      | none => v.plainText.map fun text => ⟨String.ofList text, none⟩ := by
  rw [renderCell_of_verdict (verdict_of_select hf hselect)]
  cases selected <;> rfl

/-- A format without conditions shows a binary number and its spelling alike, if the percent signs
of the section for them only move the point. -/
theorem renderCell_spelling (hf : f.hasConditions = false) {x : Binary64} {d : Decimal}
    (h : x.Spells d)
    (hmoves : ∀ s, f.select (.number (.float x)) = .ok (some s) → s.MovesPoint x d) :
    f.renderCell (.number (.float x)) = f.renderCell (.number (.decimal d)) := by
  have hselect := select_spelling hf h
  cases hx : f.select (.number (.float x)) with
  | error e =>
    rw [hx] at hselect
    simp only [renderCell, verdict, hx, ← hselect, bind, Except.bind]
  | ok selected =>
    rw [renderCell_eq hf hx, renderCell_eq hf (hselect.symm.trans hx)]
    cases selected with
    | none =>
      dsimp only
      rw [CellValue.plainText, CellValue.plainText, Number.plainText_decimal h]
    | some s =>
      dsimp only
      rw [Section.showCell, Section.showCell, Section.showNumber_decimal h (hmoves s hx)]

end Format

/-- Every finite binary number has a spelling, and a format without conditions shows the number with
the digits that its product with a hundred for each percent sign has in its own spelling. So the
number and its spelling are shown alike where there are no percent signs or they only move the
point. -/
theorem render_spelling {format : String} {f : Format} (hparse : Format.parse format = .ok f)
    (hf : f.hasConditions = false) {x : Binary64} (hx : x.isFinite) :
    ∃ d, x.Spells d ∧
      (∀ s y dy, f.select (.number (.float x)) = .ok (some s) →
        s.scaled (.float x) = .ok (.float y) → y.Spells dy →
        ∃ written, (Number.decimal dy).positional = .ok written ∧
          render (.float x) (.text format) =
            .ok ⟨String.ofList (s.layout (decide (d.toRat < 0)) written), s.color⟩) ∧
      ((∀ s, f.select (.number (.float x)) = .ok (some s) →
          s.percentCount = 0 ∨ s.MovesPoint x d) →
        render (.float x) (.text format) = render (.decimal d) (.text format)) := by
  obtain ⟨d, hd⟩ := Binary64.exists_spells hx
  have hrender : ∀ v : CellValue, render v.toValue (.text format) = f.renderCell v := by
    intro v
    simp only [render, Value.toText, bind, Except.bind, hparse, Format.render, Value.toCell_toValue]
  refine ⟨d, hd, ?_, ?_⟩
  · intro s y dy hselect hscaled hy
    have hnegative := hd.compareZero_less
    obtain ⟨written, hwritten, hshow⟩ := Section.showNumber_spelling hx hscaled hy hnegative
    refine ⟨written, hwritten, (hrender (.number (.float x))).trans ?_⟩
    rw [Format.renderCell_eq hf hselect]
    dsimp only
    rw [Section.showCell, hshow]
    rfl
  · intro hmoves
    refine (hrender (.number (.float x))).trans (Eq.trans ?_ (hrender (.number (.decimal d))).symm)
    refine Format.renderCell_spelling hf hd fun s hs => ?_
    exact (hmoves s hs).elim (Section.movesPoint_of_percentCount_eq_zero hd) id

/-- A percentage whose product is the number with its point moved. -/
theorem render_spelling_tenths :
    render (.float (.ofDecimal false 256 (-3))) (.text "0.0%") =
      render (.decimal (.finite false 256 (-3))) (.text "0.0%") := by
  have hspells : (Binary64.ofDecimal false 256 (-3)).Spells (.finite false 256 (-3)) :=
    ⟨by decide +kernel, by decide +kernel⟩
  have hparse : Format.parse "0.0%" = .ok ⟨[{
      parts := [.placeholder .zero, .point, .placeholder .zero, .percent]
      percentCount := 1 }]⟩ := rfl
  obtain ⟨d, hd, -, hequal⟩ := render_spelling hparse rfl hspells.1
  obtain rfl := Option.some.inj (hd.2.symm.trans hspells.2)
  refine hequal fun s hs => .inr ?_
  obtain rfl := Option.some.inj (Except.ok.inj hs)
  refine ⟨.ofDecimal false 256 (-1), .finite false 256 (-1), by decide +kernel,
    ⟨by decide +kernel, by decide +kernel⟩, ?_⟩
  rw [Decimal.abs_toRat_finite, Decimal.abs_toRat_finite]
  norm_num

/-- A percentage whose product has other digits than the number: the last digit shown is lost. -/
theorem render_percent :
    (Binary64.ofDecimal false 57 (-2)).Spells (.finite false 57 (-2)) ∧
      (∃ f, Format.parse "0%" = .ok f ∧ f.hasConditions = false) ∧
      render (.float (.ofDecimal false 57 (-2))) (.text "0%") = .ok ⟨"56%", none⟩ ∧
      render (.decimal (.finite false 57 (-2))) (.text "0%") = .ok ⟨"57%", none⟩ :=
  ⟨⟨by decide +kernel, by decide +kernel⟩, ⟨_, rfl, rfl⟩, by decide +kernel, by decide +kernel⟩

end FormatCode
