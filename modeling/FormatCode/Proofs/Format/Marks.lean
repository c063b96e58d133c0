import FormatCode.Format.Display
import FormatCode.Proofs.Format.Layout
import FormatCode.Proofs.Format.Pieces
import FormatCode.Proofs.Token.Joining
import FormatCode.Proofs.Token.Spelling

/-!
# Formats of placeholders, commas, points and percent signs

A format of these characters has one section, whatever their order. Its parts are those of the
characters one after another, and they are cut at the first point.

## Main definitions

* `patternMarks` — the characters.
* `Token.ofMark`, `Part.ofMark` — the token of a character and its parts.
* `Section.ofMarks` — the section of some characters.

## Main statements

* `Format.parse_marks` — a format of such characters has that section alone.
* `Section.split_ofMarks` — its parts are cut where the characters are.
-/

namespace FormatCode

/-! ## Tokens and parts of the characters -/

def patternMarks : List Char := ['0', '#', '?', '%', ',', '.']

namespace Token

def ofMark : Char → Token
  | '%' => .percentMark
  | ',' => .thousandSep
  | '.' => .decimalPoint
  | c => .placeholder (String.ofList [c])

lemma ofMark_spec {c : Char} (h : c ∈ patternMarks) :
    (ofMark c).Spellable ∧ (ofMark c).spell = [c] ∧ ofMark c ≠ .sectionSeparator := by
  simp only [patternMarks, List.mem_cons, List.not_mem_nil, or_false] at h
  obtain rfl | rfl | rfl | rfl | rfl | rfl := h
  · exact ⟨.placeholder .zero, by decide, nofun⟩
  · exact ⟨.placeholder .digit, by decide, nofun⟩
  · exact ⟨.placeholder .space, by decide, nofun⟩
  · exact ⟨.percent, rfl, nofun⟩
  · exact ⟨.comma, rfl, nofun⟩
  · exact ⟨.point, rfl, nofun⟩

lemma flatMap_spell_ofMark {cs : List Char} (h : ∀ c ∈ cs, c ∈ patternMarks) :
    (cs.map ofMark).flatMap spell = cs := by
  induction cs with
  | nil => rfl
  | cons c cs ih =>
    rw [List.forall_mem_cons] at h
    rw [List.map_cons, List.flatMap_cons, (ofMark_spec h.1).2.1, ih h.2, List.singleton_append]

end Token

namespace Part

/-- The parts of a character of a number pattern. A comma has none. -/
def ofMark : Char → List Part
  | '0' => [.placeholder .zero]
  | '#' => [.placeholder .digit]
  | '?' => [.placeholder .space]
  | '%' => [.percent]
  | '.' => [.point]
  | _ => []

end Part

namespace Section

lemma add_ofMark {c : Char} (h : c ∈ patternMarks) (s : Section) {before : Option Token}
    (hbefore : ∀ text, before ≠ some (.literal text)) (after : List Token) :
    (s.add before after (.ofMark c)).condition = s.condition ∧
      (s.add before after (.ofMark c)).parts = s.parts ++ Part.ofMark c ∧
      (s.add before after (.ofMark c)).percentCount = s.percentCount + [c].count '%' := by
  simp only [patternMarks, List.mem_cons, List.not_mem_nil, or_false] at h
  obtain rfl | rfl | rfl | rfl | rfl | rfl := h
  · exact ⟨rfl, rfl, rfl⟩
  · exact ⟨rfl, rfl, rfl⟩
  · exact ⟨rfl, rfl, rfl⟩
  · exact ⟨rfl, rfl, rfl⟩
  · refine ⟨rfl, ?_, rfl⟩
    -- Only after a literal is a comma a part of its own.
    have hparts : Token.thousandSep.parts before = [] := by
      cases before with
      | none => rfl
      | some t =>
        cases t with
        | literal text => exact absurd rfl (hbefore text)
        | _ => rfl
    exact congrArg (s.parts ++ ·) hparts
  · exact ⟨rfl, rfl, rfl⟩

lemma ofMark_ne_literal {c : Char} (h : c ∈ patternMarks) (text : String) :
    some (Token.ofMark c) ≠ some (.literal text) := by
  simp only [patternMarks, List.mem_cons, List.not_mem_nil, or_false] at h
  obtain rfl | rfl | rfl | rfl | rfl | rfl := h <;> exact nofun

/-- What the characters of a number pattern do to a section. -/
theorem addAll_ofMark {cs : List Char} (h : ∀ c ∈ cs, c ∈ patternMarks) (s : Section)
    {before : Option Token} (hbefore : ∀ text, before ≠ some (.literal text)) (tail : List Token) :
    (s.addAll before (cs.map .ofMark) tail).condition = s.condition ∧
      (s.addAll before (cs.map .ofMark) tail).parts = s.parts ++ cs.flatMap Part.ofMark ∧
      (s.addAll before (cs.map .ofMark) tail).percentCount = s.percentCount + cs.count '%' := by
  induction cs generalizing s before with
  | nil => simp [addAll]
  | cons c cs ih =>
    rw [List.forall_mem_cons] at h
    obtain ⟨hcondition, hparts, hpercents⟩ :=
      s.add_ofMark h.1 hbefore (cs.map Token.ofMark ++ tail)
    obtain ⟨hcondition', hparts', hpercents'⟩ :=
      ih h.2 (s.add before (cs.map Token.ofMark ++ tail) (.ofMark c)) (ofMark_ne_literal h.1)
    rw [List.map_cons, addAll, hcondition', hparts', hpercents', hcondition, hparts, hpercents,
      List.flatMap_cons, List.append_assoc, Nat.add_assoc, ← List.count_append,
      List.singleton_append]
    exact ⟨rfl, rfl, rfl⟩

end Section

namespace Part

/-- A character of a number pattern is counted as its parts are. -/
lemma count_ofMark {c : Char} (h : c ∈ patternMarks) :
    (ofMark c).count .percent = [c].count '%' ∧
      (ofMark c).countP isPlaceholder = [c].countP (· ∈ ['0', '#', '?']) := by
  simp only [patternMarks, List.mem_cons, List.not_mem_nil, or_false] at h
  obtain rfl | rfl | rfl | rfl | rfl | rfl := h <;> decide

lemma count_flatMap_ofMark {cs : List Char} (h : ∀ c ∈ cs, c ∈ patternMarks) :
    (cs.flatMap ofMark).count .percent = cs.count '%' ∧
      (cs.flatMap ofMark).countP isPlaceholder = cs.countP (· ∈ ['0', '#', '?']) := by
  induction cs with
  | nil => exact ⟨rfl, rfl⟩
  | cons c cs ih =>
    rw [List.forall_mem_cons] at h
    obtain ⟨hpercents, hplaceholders⟩ := count_ofMark h.1
    obtain ⟨hpercents', hplaceholders'⟩ := ih h.2
    rw [List.flatMap_cons, List.count_append, List.countP_append, hpercents, hplaceholders,
      hpercents', hplaceholders', ← List.count_append, ← List.countP_append, List.singleton_append]
    exact ⟨rfl, rfl⟩

/-- Without a point the parts are placeholders and percent signs. -/
lemma isPlain_ofMark {cs : List Char} (h : ∀ c ∈ cs, c ∈ ['0', '#', '?', '%', ',']) :
    ∀ p ∈ cs.flatMap ofMark, p.IsPlain := by
  intro p hp
  obtain ⟨c, hc, hp⟩ := List.mem_flatMap.mp hp
  have hmark := h c hc
  simp only [List.mem_cons, List.not_mem_nil, or_false] at hmark
  obtain rfl | rfl | rfl | rfl | rfl := hmark
  · rw [List.mem_singleton.mp hp]
    trivial
  · rw [List.mem_singleton.mp hp]
    trivial
  · rw [List.mem_singleton.mp hp]
    trivial
  · rw [List.mem_singleton.mp hp]
    trivial
  · cases hp

lemma any_isPlaceholder_ofMark {cs : List Char} (h : ∃ c ∈ cs, c ∈ ['0', '#', '?']) :
    (cs.flatMap ofMark).any isPlaceholder := by
  obtain ⟨c, hc, hmark⟩ := h
  have hplaceholder : ∃ p ∈ ofMark c, p.isPlaceholder := by
    simp only [List.mem_cons, List.not_mem_nil, or_false] at hmark
    obtain rfl | rfl | rfl := hmark <;> exact ⟨_, List.mem_cons_self .., rfl⟩
  obtain ⟨p, hp, hplaceholder⟩ := hplaceholder
  exact List.any_eq_true.mpr ⟨p, List.mem_flatMap.mpr ⟨c, hc, hp⟩, hplaceholder⟩

/-- None of the characters is shown as text. -/
lemma text_ofMark (cs : List Char) : ∀ p ∈ cs.flatMap ofMark, p.text = [] := by
  intro p hp
  obtain ⟨c, -, hp⟩ := List.mem_flatMap.mp hp
  unfold ofMark at hp
  split at hp <;> simp_all [text]

/-- Only a point is a point. -/
lemma ne_point_of_mem_ofMark {cs : List Char} (h : '.' ∉ cs) :
    ∀ p ∈ cs.flatMap ofMark, (p == point) = false := by
  intro p hp
  obtain ⟨c, hc, hp⟩ := List.mem_flatMap.mp hp
  have hpoint : c ≠ '.' := fun hpoint => h (hpoint ▸ hc)
  unfold ofMark at hp
  split at hp <;> simp_all

end Part

/-- A list without an item is not cut, and one that is put after it is cut off. -/
lemma splitAtFirst_of_notMem {α : Type} {p : α → Bool} {items : List α}
    (h : ∀ a ∈ items, p a = false) :
    splitAtFirst p items = (items, none) ∧
      ∀ {a : α} (rest : List α), p a →
        splitAtFirst p (items ++ a :: rest) = (items, some rest) := by
  have hnot : ∀ a ∈ items, (!p a) = true := fun a ha => by rw [h a ha]; rfl
  refine ⟨?_, fun rest ha => ?_⟩
  · rw [splitAtFirst, List.takeWhile_eq_self_iff.mpr hnot, List.dropWhile_eq_nil_iff.mpr hnot]
  · rw [splitAtFirst, List.takeWhile_append_of_pos hnot, List.dropWhile_append_of_pos hnot,
      List.takeWhile_cons_of_neg (by simpa using ha),
      List.dropWhile_cons_of_neg (by simpa using ha), List.append_nil]

lemma splitAtFirst_point_of_notMem {cs : List Char} (h : '.' ∉ cs) :
    splitAtFirst (· == '.') cs = (cs, none) ∧
      ∀ rest, splitAtFirst (· == '.') (cs ++ '.' :: rest) = (cs, some rest) := by
  obtain ⟨hnone, hsome⟩ := splitAtFirst_of_notMem (p := (· == '.')) fun c hc =>
    beq_eq_false_iff_ne.mpr fun hpoint => h (hpoint ▸ hc)
  exact ⟨hnone, fun rest => hsome rest (beq_self_eq_true '.')⟩

/-! ## The section of the characters -/

namespace Section

def ofMarks (cs : List Char) : Section := addAll {} none (cs.map .ofMark) []

variable {cs : List Char}

lemma ofMarks_spec (h : ∀ c ∈ cs, c ∈ patternMarks) :
    (ofMarks cs).condition = none ∧ (ofMarks cs).parts = cs.flatMap Part.ofMark ∧
      (ofMarks cs).percentCount = cs.count '%' := by
  have hbefore : ∀ text, (none : Option Token) ≠ some (.literal text) := nofun
  obtain ⟨hcondition, hparts, hpercents⟩ := addAll_ofMark h {} hbefore []
  exact ⟨hcondition, hparts.trans (List.nil_append _), hpercents.trans (Nat.zero_add _)⟩

/-- The parts are cut at the point where the characters are. -/
theorem split_ofMarks (h : ∀ c ∈ cs, c ∈ patternMarks) :
    (ofMarks cs).split = ((splitAtFirst (· == '.') cs).1.flatMap Part.ofMark,
      (splitAtFirst (· == '.') cs).2.map (·.flatMap Part.ofMark)) := by
  rw [split, (ofMarks_spec h).2.1]
  by_cases hpoint : '.' ∈ cs
  · obtain ⟨whole, fraction, rfl, hwhole⟩ := List.eq_append_cons_of_mem hpoint
    have hparts := (splitAtFirst_of_notMem (Part.ne_point_of_mem_ofMark hwhole)).2
      (fraction.flatMap Part.ofMark) (beq_self_eq_true Part.point)
    rw [(splitAtFirst_point_of_notMem hwhole).2, List.flatMap_append, List.flatMap_cons]
    exact hparts
  · rw [(splitAtFirst_point_of_notMem hpoint).1,
      (splitAtFirst_of_notMem (Part.ne_point_of_mem_ofMark hpoint)).1]
    rfl

/-- A minus sign stands before the digits that are laid out. -/
lemma layout_eq (s : Section) (negative : Bool) (written : Positional) :
    s.layout negative written = (if negative then ['-'] else []) ++
      (layoutWhole written.whole s.split.1 s.grouped ++ match s.split.2 with
        | none => []
        | some parts => '.' :: layoutFraction written.fraction parts) := by
  rw [layout]
  cases negative <;> rfl

end Section

/-- A format of placeholders, commas, points and percent signs has one section. -/
theorem Format.parse_marks {cs : List Char} (h : ∀ c ∈ cs, c ∈ patternMarks)
    (hplaceholder : ∃ c ∈ cs, c ∈ ['0', '#', '?']) :
    parse (String.ofList cs) = .ok ⟨[Section.ofMarks cs]⟩ := by
  have htokens : ∀ t ∈ cs.map Token.ofMark, t.Spellable ∧ t ≠ .sectionSeparator := by
    intro t ht
    obtain ⟨c, hc, rfl⟩ := List.mem_map.mp ht
    obtain ⟨hspellable, -, hseparator⟩ := Token.ofMark_spec (h c hc)
    exact ⟨hspellable, hseparator⟩
  have htokenize : tokenize (String.ofList cs) = .ok (cs.map Token.ofMark) := by
    conv_lhs => rw [← Token.flatMap_spell_ofMark h]
    exact tokenize_spell fun t ht => (htokens t ht).1
  have hknown : ∀ us ∈ [cs.map Token.ofMark], ∀ t ∈ us, t.IsKnown := by
    intro us hus
    rw [List.mem_singleton.mp hus]
    exact isKnown_of_tokenize htokenize
  have hseparator : ∀ us ∈ [cs.map Token.ofMark], .sectionSeparator ∉ us := by
    intro us hus hmem
    rw [List.mem_singleton.mp hus] at hmem
    exact (htokens _ hmem).2 rfl
  have hsections := Format.ofTokens_pieces _ [] hknown hseparator
  have hparts : (Section.ofMarks cs).parts ≠ [] := by
    intro hnone
    have hany := Part.any_isPlaceholder_ofMark hplaceholder
    rw [← (Section.ofMarks_spec h).2.1, hnone] at hany
    cases hany
  rw [followingTokens, List.flatMap_nil, List.append_nil] at hsections
  rw [parse, htokenize]
  refine hsections.trans ?_
  have hpieces : Section.ofPieces none [cs.map Token.ofMark] = [Section.ofMarks cs] := rfl
  rw [hpieces, dropBlankLast, if_neg hparts]

end FormatCode
