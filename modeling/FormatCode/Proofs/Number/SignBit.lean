import FormatCode.Proofs.Number.Exact
import FormatCode.Proofs.Outcome

/-!
# Signs that are written

A number is written with a sign or without one, zeros and infinities too. Magnitudes have none, and
keep none when they are multiplied.

## Main definitions

* `Decimal.signBit`, `Binary64.signBit`, `Number.signBit` — whether a number is written with a sign.

## Main statements

* `Number.negative_of_positional` — the sign of a number that is written out.
* `Number.signBit_magnitude`, `Number.signBit_scaleByPercent` — numbers without a sign.
-/

namespace FormatCode

namespace Decimal

variable {d d' : Decimal}

def signBit : Decimal → Bool
  | finite negative .. | infinity negative | nan negative .. => negative

lemma negative_eq_signBit (d : Decimal) : d.positional.negative = d.signBit := by
  cases d with
  | finite negative c e => cases e <;> rfl
  | _ => rfl

lemma signBit_quiet {negative signaling : Bool} {payload : Nat}
    (h : quiet negative signaling payload = .ok d') : d'.signBit = negative := by
  rw [quiet] at h
  split at h
  · cases h
  · obtain rfl := Except.ok.inj h
    rfl

lemma signBit_abs (hd : d.isFinite) (h : d.abs = .ok d') : d'.signBit = false := by
  cases d with
  | finite negative c e =>
    obtain ⟨-, -, rfl⟩ := Except.map_eq_ok_iff.mp h
    rfl
  | _ => cases hd

lemma signBit_shift {places : Nat} (h : d.shift places = .ok d') : d'.signBit = d.signBit := by
  cases d with
  | finite negative c e =>
    obtain ⟨-, -, rfl⟩ := Except.map_eq_ok_iff.mp h
    rfl
  | infinity negative =>
    obtain rfl := Except.ok.inj h
    rfl
  | nan negative signaling payload => exact signBit_quiet h

lemma signBit_normalize (h : d.normalize = .ok d') : d'.signBit = d.signBit := by
  cases d with
  | finite negative c e =>
    obtain ⟨⟨c', e'⟩, -, rfl⟩ := Except.map_eq_ok_iff.mp h
    dsimp only
    split <;> rfl
  | infinity negative =>
    obtain rfl := Except.ok.inj h
    rfl
  | nan negative signaling payload => exact signBit_quiet h

end Decimal

namespace Binary64

variable {x y : Binary64}

def signBit : Binary64 → Bool
  | finite negative _ | infinity negative => negative
  | nan => false

lemma signBit_shortestDecimal (x : Binary64) : x.shortestDecimal.signBit = x.signBit := by
  cases x <;> rfl

lemma signBit_abs (x : Binary64) : x.abs.signBit = false := by cases x <;> rfl

lemma signBit_ofRatio (negative : Bool) (n d : Nat) :
    (ofRatio negative n d).signBit = negative := by
  rw [ofRatio]
  split
  · rfl
  · rw [ofBits]
    split <;> rfl

lemma signBit_ofInt {i : Int} (h : ofInt i = .ok x) : x.signBit = decide (i < 0) := by
  have hsign := signBit_ofRatio (decide (i < 0)) i.natAbs 1
  rw [ofInt] at h
  split at h
  · cases h
  · rwa [Except.ok.inj h] at hsign

/-- A product of numbers without a sign has none. -/
lemma signBit_mul (hx : x.signBit = false) (hy : y.signBit = false) :
    (x.mul y).signBit = false := by
  cases x with
  | finite n a =>
    cases y with
    | finite m b =>
      obtain rfl : n = false := hx
      obtain rfl : m = false := hy
      exact signBit_ofRatio ..
    | infinity m =>
      rw [mul]
      split
      · rfl
      · exact bne_eq_false_iff_eq.mpr (hx.trans hy.symm)
    | nan => rfl
  | infinity n =>
    cases y with
    | finite m b =>
      rw [mul]
      split
      · rfl
      · exact bne_eq_false_iff_eq.mpr (hx.trans hy.symm)
    | infinity m => exact bne_eq_false_iff_eq.mpr (hx.trans hy.symm)
    | nan => rfl
  | nan => rfl

end Binary64

namespace Number

variable {n m : Number}

def signBit : Number → Bool
  | int i => decide (i < 0)
  | float x => x.signBit
  | decimal d => d.signBit

lemma negative_of_positional {written : Positional} (h : n.positional = .ok written) :
    written.negative = n.signBit := by
  cases n with
  | int i =>
    rw [positional_int] at h
    split at h
    · obtain rfl := Except.ok.inj h
      rfl
    · cases h
  | float x =>
    obtain rfl := Except.ok.inj h
    exact (Decimal.negative_eq_signBit _).trans x.signBit_shortestDecimal
  | decimal d =>
    obtain ⟨d', hd', rfl⟩ := Except.map_eq_ok_iff.mp h
    exact (Decimal.negative_eq_signBit d').trans (Decimal.signBit_normalize hd')

lemma signBit_magnitude (hn : n.isFinite) (h : n.magnitude = .ok m) : m.signBit = false := by
  cases n with
  | int i =>
    obtain rfl := Except.ok.inj h
    exact decide_eq_false (not_lt.mpr (Int.natCast_nonneg i.natAbs))
  | float x =>
    obtain rfl := Except.ok.inj h
    exact x.signBit_abs
  | decimal d =>
    obtain ⟨d', hd', rfl⟩ := Except.map_eq_ok_iff.mp h
    exact Decimal.signBit_abs hn hd'

lemma signBit_scaleByPercent {percents : Nat} (hn : n.signBit = false)
    (h : n.scaleByPercent percents = .ok m) : m.signBit = false := by
  cases n with
  | int i =>
    obtain rfl := Except.ok.inj h
    have hi : 0 ≤ i := not_lt.mp (of_decide_eq_false hn)
    exact decide_eq_false (not_lt.mpr (mul_nonneg hi (Int.natCast_nonneg _)))
  | float x =>
    obtain ⟨factor, hfactor, rfl⟩ := Except.map_eq_ok_iff.mp h
    refine Binary64.signBit_mul hn ((Binary64.signBit_ofInt hfactor).trans ?_)
    exact decide_eq_false (not_lt.mpr (Int.natCast_nonneg _))
  | decimal d =>
    obtain ⟨d', hd', rfl⟩ := Except.map_eq_ok_iff.mp h
    exact (Decimal.signBit_shift hd').trans hn

end Number

end FormatCode
