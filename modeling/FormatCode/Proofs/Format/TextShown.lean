import FormatCode.Proofs.Format.Fallback
import FormatCode.Proofs.Format.WellFormed

/-!
# Text shown through a format

A format shows text in one of two ways, and does so for all of it: as it is, without a color, or as
the literal characters of the section for text, in the color of the section. The format alone
decides which, so that text either shows through as a whole or leaves no trace. The conditions of
other sections take no part, since they are for numbers.

## Main definitions

* `Part.literals` — a literal part for each character of a text.
* `ShowsAsIs`, `ShowsLiterals` — the two ways of showing text.

## Main statements

* `Section.filter_isLiteral_eq` — the literal parts of a section spell what it shows for text.
* `Format.verdict_text` — what becomes of text under a format.
* `xor_showsAsIs_of_parse` — a format shows text in one of the two ways, and which one it is.
-/

namespace FormatCode

/-! ## Literal parts -/

namespace Part

def isLiteral : Part → Bool
  | literal _ => true
  | _ => false

def literals (text : List Char) : List Part := text.map fun c => literal (String.ofList [c])

lemma literals_append (s t : List Char) : literals (s ++ t) = literals s ++ literals t :=
  List.map_append

/-- A part of a format that is read is shown for text one character at a time, if at all. -/
lemma WellFormed.filter_isLiteral {p : Part} (h : p.WellFormed) :
    [p].filter isLiteral = literals p.text := by
  cases p with
  | literal text =>
    have hlength : text.toList.length = 1 := String.length_toList.trans h
    obtain ⟨c, hc⟩ := List.length_eq_one_iff.mp hlength
    have htext : text = String.ofList [c] := by rw [← hc, String.ofList_toList]
    rw [Part.text, hc, htext]
    rfl
  | _ => rfl

end Part

/-- The literal parts of a section spell what it shows for text, those before and after the decimal
point alike. -/
lemma Section.filter_isLiteral_eq {s : Section} (h : ∀ p ∈ s.parts, p.WellFormed) :
    s.parts.filter Part.isLiteral = Part.literals s.showText := by
  unfold showText
  revert h
  induction s.parts with
  | nil => exact fun _ => rfl
  | cons p ps ih =>
    intro h
    rw [List.forall_mem_cons] at h
    rw [List.flatMap_cons, Part.literals_append, ← h.1.filter_isLiteral, ← ih h.2,
      ← List.filter_append, List.singleton_append]

/-! ## The section for text -/

namespace Format

lemma mem_of_textSection {f : Format} {s : Section} (h : f.textSection = some s) :
    s ∈ f.sections :=
  mem_of_select ((f.select_text "").trans (congrArg Except.ok h))

/-- Text is rejected by the section for text if that has a condition, whatever the condition, and
otherwise shown by it. -/
theorem verdict_text (f : Format) (text : String) :
    f.verdict (.text text) = .ok (match f.textSection with
      | none => .unmatched
      | some s => s.condition.elim (.applies s) .rejected) := by
  rw [verdict, select_text]
  cases f.textSection with
  | none => rfl
  | some s => cases hc : s.condition <;> simp [bind, Except.bind, hc] <;> rfl

end Format

/-! ## The two ways of showing text -/

def ShowsAsIs (format : String) : Prop :=
  ∀ text, render (.text text) (.text format) = .ok ⟨text, none⟩

/-- Whether a format shows all text as one and the same result: the literal characters of a section
in order, in its color. -/
def ShowsLiterals (format : String) (s : Section) : Prop :=
  ∃ shown : Rendered, shown.color = s.color ∧
    s.parts.filter Part.isLiteral = Part.literals shown.text.toList ∧
    ∀ text, render (.text text) (.text format) = .ok shown

section

variable {format : String} {f : Format}

/-- What is shown for text follows from what becomes of it. -/
lemma render_text_of_parse (h : Format.parse format = .ok f) (text : String) :
    render (.text text) (.text format) = match f.textSection with
      | none => .ok ⟨text, none⟩
      | some s =>
        if s.condition.isSome then .ok ⟨text, none⟩
        else .ok ⟨String.ofList s.showText, s.color⟩ := by
  have hrender := (render_of_parse h (.text text)).trans
    (Format.renderCell_of_verdict (f.verdict_text text))
  refine hrender.trans ?_
  cases f.textSection with
  | none => simp [Verdict.render, CellValue.plainText, Except.map]
  | some s =>
    cases hc : s.condition <;>
      simp [hc, Verdict.render, CellValue.plainText, Section.showCell, Except.map]

/-- No format shows all text in both ways, since text differs from other text. -/
lemma not_showsLiterals_of_showsAsIs (h : ShowsAsIs format) (s : Section) :
    ¬ ShowsLiterals format s := by
  rintro ⟨shown, -, -, hshown⟩
  have hempty := Except.ok.inj ((h "").symm.trans (hshown ""))
  have hother := Except.ok.inj ((h "a").symm.trans (hshown "a"))
  exact absurd (congrArg Rendered.text (hempty.trans hother.symm)) (by decide)

/-- A format shows all text as it is, or all text as the literal characters of the section for text,
which is the fourth of exactly four and otherwise the first. It shows text as it is exactly if there
is no section at all or the section for text has a condition. -/
theorem xor_showsAsIs_of_parse (h : Format.parse format = .ok f) :
    Xor (ShowsAsIs format) (∃ s, f.textSection = some s ∧ ShowsLiterals format s) ∧
      (ShowsAsIs format ↔
        f.sections = [] ∨ ∃ s, f.textSection = some s ∧ s.condition.isSome) := by
  have hwellFormed : ∀ s ∈ f.sections, ∀ p ∈ s.parts, p.WellFormed := by
    obtain ⟨-, -, -, hread, -⟩ := Format.isRead_of_parse h
    exact fun s hs => (hread s hs).2.parts
  have hrender := render_text_of_parse h
  cases hsection : f.textSection with
  | none =>
    -- There is no section for text, so text is shown as it is.
    rw [hsection] at hrender
    have hempty : f.sections = [] := Format.textSection_eq_none_iff.mp hsection
    exact ⟨.inl ⟨hrender, by simp⟩, iff_of_true hrender (.inl hempty)⟩
  | some s =>
    rw [hsection] at hrender
    have hne : f.sections ≠ [] := by
      rw [Ne, ← Format.textSection_eq_none_iff, hsection]
      exact Option.some_ne_none s
    by_cases hcondition : s.condition.isSome
    · have hshows : ShowsAsIs format := fun text => by simpa [hcondition] using hrender text
      refine ⟨.inl ⟨hshows, ?_⟩, iff_of_true hshows (.inr ⟨s, rfl, hcondition⟩)⟩
      rintro ⟨t, -, hliterals⟩
      exact not_showsLiterals_of_showsAsIs hshows t hliterals
    · have hliterals : ShowsLiterals format s := by
        refine ⟨⟨String.ofList s.showText, s.color⟩, rfl, ?_, fun text => ?_⟩
        · rw [String.toList_ofList]
          exact Section.filter_isLiteral_eq (hwellFormed s (Format.mem_of_textSection hsection))
        · simpa [hcondition] using hrender text
      have hnot : ¬ ShowsAsIs format :=
        fun hshows => not_showsLiterals_of_showsAsIs hshows s hliterals
      exact ⟨.inr ⟨⟨s, rfl, hliterals⟩, hnot⟩, iff_of_false hnot (by simp [hne, hcondition])⟩

/-- The literals on both sides of a point, in the section for text; the condition is that of another
section. -/
theorem xor_showsAsIs_of_parse_fourth :
    ∃ shown : Rendered, shown.color = some "Red" ∧
      [.literal "a", .literal "b"] = Part.literals shown.text.toList ∧
      ∀ text, render (.text text) (.text "0;[<0]0;0;[Red]\\a.0\\b") = .ok shown := by
  have hparse : Format.parse "0;[<0]0;0;[Red]\\a.0\\b" = .ok ⟨[
      { parts := [.placeholder .zero] },
      { condition := some ⟨"<", .int 0⟩, parts := [.placeholder .zero] },
      { parts := [.placeholder .zero] },
      { color := some "Red"
        parts := [.literal "a", .point, .placeholder .zero, .literal "b"] }]⟩ := rfl
  obtain ⟨hxor, hasIs⟩ := xor_showsAsIs_of_parse hparse
  have hnot : ¬ ShowsAsIs "0;[<0]0;0;[Red]\\a.0\\b" := by
    rw [hasIs]
    simp [Format.textSection]
  obtain ⟨s, hsection, hliterals⟩ := (hxor.resolve_left fun h => hnot h.1).1
  obtain rfl := Option.some.inj hsection
  exact hliterals

end

end FormatCode
