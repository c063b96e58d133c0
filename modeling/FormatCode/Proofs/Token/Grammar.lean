import FormatCode.Proofs.Token.Reading

/-!
# The grammar of tokens

Every token covers a segment of the format, and the segments make up the format. What a token may
cover depends on what follows the segment: an unfinished quote, bracket or mark stands at the end, a
closed quote before no other quote, a date code is as long as possible, and a literal is a character
at which no other token begins. A format that has tokens at all is cut in exactly one way, except
that the grammar does not tell the meanings of a bracket apart.

## Main definitions

* `Token.Form` — what the tokens other than literals cover.
* `Token.Covers` — what all tokens cover.
* `Token.Cut` — tokens and the segments that they cover, which make up a text.

## Main statements

* `tokenize_unique_cut` — the tokens of a format cut it, and no others do.
-/

namespace FormatCode

namespace Token

/-- Two tokens that are the same, or that are both meanings of a bracket. -/
def SameForm (t u : Token) : Prop := t = u ∨ (t.IsBracket ∧ u.IsBracket)

/-- A token that is no literal, a segment that it may cover, and the text after the segment. -/
inductive Form : Token → (segment rest : List Char) → Prop
  | sectionSeparator (rest : List Char) : Form sectionSeparator [';'] rest
  | decimalPoint (rest : List Char) : Form decimalPoint ['.'] rest
  | thousandSep (rest : List Char) : Form thousandSep [','] rest
  | percentMark (rest : List Char) : Form percentMark ['%'] rest
  | textPlaceholder (rest : List Char) : Form textPlaceholder ['@'] rest
  | placeholder (c : Char) (rest : List Char) :
      c ∈ ['0', '#', '?'] → Form (placeholder (String.ofList [c])) [c] rest
  | quoted (text rest : List Char) :
      rest.head? ≠ some '\x22' →
      Form (quoted (String.ofList text)) ('\x22' :: Lexeme.double text ++ ['\x22']) rest
  | openQuoted (text : List Char) :
      Form (quoted (String.ofList text)) ('\x22' :: Lexeme.double text) []
  | escape (c : Option Char) (rest : List Char) :
      (c = none → rest = []) → Form (escape (String.ofList c.toList)) ('\\' :: c.toList) rest
  | fill (c : Option Char) (rest : List Char) :
      (c = none → rest = []) → Form (fill (String.ofList c.toList)) ('*' :: c.toList) rest
  | space (c : Option Char) (rest : List Char) :
      (c = none → rest = []) → Form (space (String.ofList c.toList)) ('_' :: c.toList) rest
  | bracket (t : Token) (content rest : List Char) :
      t.IsBracket → ']' ∉ content → Form t ('[' :: content ++ [']']) rest
  | openBracket (t : Token) (content : List Char) :
      t.IsBracket → ']' ∉ content → Form t ('[' :: content) []
  | scientific (mark sign : Char) (rest : List Char) :
      mark = 'E' ∨ mark = 'e' → sign = '+' ∨ sign = '-' →
      Form (scientific (String.ofList [sign])) [mark, sign] rest
  | date (pattern : String) (rest : List Char) :
      pattern ∈ datePatterns →
      (∀ q ∈ datePatterns, q.toList <+: pattern.toList ++ rest →
        q.toList.length ≤ pattern.toList.length) →
      Form (date pattern) pattern.toList rest

inductive Covers : Token → (segment rest : List Char) → Prop
  | form {t : Token} {segment rest : List Char} : Form t segment rest → Covers t segment rest
  | literal (c : Char) (rest : List Char) :
      (∀ t segment after, c :: rest = segment ++ after → ¬ Form t segment after) →
      Covers (literal (String.ofList [c])) [c] rest

inductive Cut : List (Token × List Char) → List Char → Prop
  | nil : Cut [] []
  | cons {t : Token} {segment rest : List Char} {cut : List (Token × List Char)} :
      segment ≠ [] → Covers t segment rest → Cut cut rest →
      Cut ((t, segment) :: cut) (segment ++ rest)

/-! ## From lexemes to forms -/

lemma form_bracket {content rest : List Char} {closed : Bool} {t : Token}
    (h : (Lexeme.bracket content closed).Fits rest) (ht : t.IsBracket) :
    Form t (Lexeme.bracket content closed).source rest := by
  obtain ⟨hcontent, hrest⟩ := h
  cases closed with
  | true => exact .bracket t content rest ht hcontent
  | false =>
    rw [hrest rfl, Lexeme.source, if_neg Bool.false_ne_true, List.append_nil]
    exact .openBracket t content ht hcontent

/-- What a lexeme other than a literal means has the form of the lexeme. -/
theorem form_of_fits {l : Lexeme} {rest : List Char} {t : Token} (h : l.Fits rest)
    (hl : ∀ c, l ≠ .literal c) (ht : ofLexeme l = .ok t) : Form t l.source rest := by
  cases l with
  | bracket content closed => exact form_bracket h (isBracket_of_ofBracket ht)
  | quoted text closed =>
    obtain rfl := Except.ok.inj ht
    cases closed with
    | true => exact .quoted text rest h
    | false =>
      obtain rfl : rest = [] := h
      rw [Lexeme.source, if_neg Bool.false_ne_true, List.append_nil]
      exact .openQuoted text
  | literal c => exact absurd rfl (hl c)
  | placeholder p =>
    obtain rfl := Except.ok.inj ht
    exact .placeholder p.mark rest (by cases p <;> decide)
  | scientific mark sign =>
    obtain rfl := Except.ok.inj ht
    exact .scientific mark sign rest h.1 (by simpa using h.2)
  | date pattern =>
    obtain rfl := Except.ok.inj ht
    exact .date pattern rest h.1 h.2.2
  | escape char => obtain rfl := Except.ok.inj ht; exact .escape char rest h
  | fill char => obtain rfl := Except.ok.inj ht; exact .fill char rest h
  | space char => obtain rfl := Except.ok.inj ht; exact .space char rest h
  | separator => obtain rfl := Except.ok.inj ht; exact .sectionSeparator rest
  | point => obtain rfl := Except.ok.inj ht; exact .decimalPoint rest
  | comma => obtain rfl := Except.ok.inj ht; exact .thousandSep rest
  | percent => obtain rfl := Except.ok.inj ht; exact .percentMark rest
  | atSign => obtain rfl := Except.ok.inj ht; exact .textPlaceholder rest

/-- Every lexeme other than a literal has a form, whether it means something or not. -/
theorem exists_form_of_fits {l : Lexeme} {rest : List Char} (h : l.Fits rest)
    (hl : ∀ c, l ≠ .literal c) : ∃ t, Form t l.source rest := by
  cases l with
  | bracket content closed => exact ⟨locale "", form_bracket h trivial⟩
  | _ => exact ⟨_, form_of_fits h hl rfl⟩

/-! ## From forms to lexemes -/

/-- A lexeme means one token. -/
lemma sameForm_of_ofLexeme {l : Lexeme} {t : Token} (h : ofLexeme l = .ok t) :
    ∀ u, ofLexeme l = .ok u → SameForm u t := by
  intro u hu
  exact .inl (Except.ok.inj (hu.symm.trans h))

/-- A form is that of a lexeme, and the token is what the lexeme means, brackets apart. -/
theorem Form.exists_lexeme {t : Token} {segment rest : List Char} (h : Form t segment rest) :
    ∃ l : Lexeme, l.source = segment ∧ l.Fits rest ∧ (∀ c, l ≠ .literal c) ∧
      ∀ u, ofLexeme l = .ok u → SameForm u t := by
  cases h with
  | quoted text _ hrest =>
    exact ⟨.quoted text true, rfl, hrest, by simp, sameForm_of_ofLexeme rfl⟩
  | openQuoted text =>
    exact ⟨.quoted text false, by simp [Lexeme.source], rfl, by simp,
      sameForm_of_ofLexeme rfl⟩
  | bracket _ content _ ht hcontent =>
    exact ⟨.bracket content true, rfl, ⟨hcontent, by simp⟩, by simp,
      fun u hu => .inr ⟨isBracket_of_ofBracket hu, ht⟩⟩
  | openBracket _ content ht hcontent =>
    exact ⟨.bracket content false, by simp [Lexeme.source], ⟨hcontent, fun _ => rfl⟩, by simp,
      fun u hu => .inr ⟨isBracket_of_ofBracket hu, ht⟩⟩
  | placeholder c _ hc =>
    obtain ⟨p, rfl⟩ : ∃ p : Placeholder, p.mark = c := by
      obtain rfl | rfl | rfl : c = '0' ∨ c = '#' ∨ c = '?' := by simpa using hc
      exacts [⟨.zero, rfl⟩, ⟨.digit, rfl⟩, ⟨.space, rfl⟩]
    exact ⟨.placeholder p, rfl, trivial, by simp, sameForm_of_ofLexeme rfl⟩
  | scientific mark sign _ hmark hsign =>
    exact ⟨.scientific mark sign, rfl, ⟨hmark, by simpa using hsign⟩, by simp,
      sameForm_of_ofLexeme rfl⟩
  | date pattern _ hp hlongest =>
    exact ⟨.date pattern, rfl, ⟨hp, List.prefix_append _ _, hlongest⟩, by simp,
      sameForm_of_ofLexeme rfl⟩
  | escape char _ hrest =>
    exact ⟨.escape char, rfl, hrest, by simp, sameForm_of_ofLexeme rfl⟩
  | fill char _ hrest =>
    exact ⟨.fill char, rfl, hrest, by simp, sameForm_of_ofLexeme rfl⟩
  | space char _ hrest =>
    exact ⟨.space char, rfl, hrest, by simp, sameForm_of_ofLexeme rfl⟩
  | sectionSeparator =>
    exact ⟨.separator, rfl, trivial, by simp, sameForm_of_ofLexeme rfl⟩
  | decimalPoint => exact ⟨.point, rfl, trivial, by simp, sameForm_of_ofLexeme rfl⟩
  | thousandSep => exact ⟨.comma, rfl, trivial, by simp, sameForm_of_ofLexeme rfl⟩
  | percentMark => exact ⟨.percent, rfl, trivial, by simp, sameForm_of_ofLexeme rfl⟩
  | textPlaceholder =>
    exact ⟨.atSign, rfl, trivial, by simp, sameForm_of_ofLexeme rfl⟩

/-- A literal is first where no form can begin. -/
lemma first_eq_literal_iff {c : Char} {rest : List Char} :
    Lexeme.first c rest = .literal c ↔
      ∀ t segment after, c :: rest = segment ++ after → ¬ Form t segment after := by
  constructor
  · intro hfirst t segment after hs hform
    obtain ⟨l, rfl, hfits, hl, -⟩ := hform.exists_lexeme
    exact hl c (Lexeme.first_eq hfits hs ▸ hfirst)
  · intro hnone
    obtain ⟨after, hs, hfits⟩ := Lexeme.exists_eq_first c rest
    by_cases hl : ∀ d, Lexeme.first c rest ≠ .literal d
    · obtain ⟨t, hform⟩ := exists_form_of_fits hfits hl
      exact absurd hform (hnone t _ after hs)
    · obtain ⟨d, hd⟩ := not_forall_not.mp hl
      rw [hd, Lexeme.source, List.cons_append, List.cons.injEq] at hs
      rw [hd, hs.1]

/-! ## Cutting a text -/

/-- What a lexeme means covers the text of the lexeme. -/
theorem covers_of_fits {l : Lexeme} {rest : List Char} {t : Token} (h : l.Fits rest)
    (ht : ofLexeme l = .ok t) : Covers t l.source rest := by
  by_cases hl : ∀ c, l ≠ .literal c
  · exact .form (form_of_fits h hl ht)
  · obtain ⟨c, hc⟩ := not_forall_not.mp hl
    subst hc
    obtain rfl := Except.ok.inj ht
    exact .literal c rest (first_eq_literal_iff.mp (Lexeme.first_eq h rfl))

/-- What a token covers is the text of a lexeme, and the token is what the lexeme means, brackets
apart. -/
theorem Covers.exists_lexeme {t : Token} {segment rest : List Char} (h : Covers t segment rest) :
    ∃ l : Lexeme, l.source = segment ∧ l.Fits rest ∧ ∀ u, ofLexeme l = .ok u → SameForm u t := by
  cases h with
  | form hform =>
    obtain ⟨l, hsource, hfits, -, hmeaning⟩ := hform.exists_lexeme
    exact ⟨l, hsource, hfits, hmeaning⟩
  | literal c _ hnone =>
    obtain ⟨after, hs, hfits⟩ := Lexeme.exists_eq_first c rest
    rw [first_eq_literal_iff.mpr hnone] at hs hfits
    obtain rfl : rest = after := by simpa [Lexeme.source] using hs
    exact ⟨.literal c, rfl, hfits, sameForm_of_ofLexeme rfl⟩

theorem cut_of_spells {ls : List Lexeme} {ts : List Token} {s : List Char}
    (hspells : Lexeme.Spells ls s) (hreads : Reads ls ts) : Cut (ts.zip (ls.map (·.source))) s := by
  induction hspells generalizing ts with
  | nil =>
    cases hreads
    exact .nil
  | cons hfits _ ih =>
    cases hreads with
    | cons ht hrest =>
      exact .cons (Lexeme.source_ne_nil hfits) (covers_of_fits hfits ht) (ih hrest)

theorem Cut.exists_spells {cut : List (Token × List Char)} {s : List Char} (h : Cut cut s) :
    ∃ ls, Lexeme.Spells ls s ∧ ls.map (·.source) = cut.map Prod.snd ∧
      ∀ ts, Reads ls ts → List.Forall₂ SameForm ts (cut.map Prod.fst) := by
  induction h with
  | nil => exact ⟨[], .nil, rfl, fun ts hts => by cases hts; exact .nil⟩
  | cons _ hcovers _ ih =>
    obtain ⟨l, hsource, hfits, hmeaning⟩ := hcovers.exists_lexeme
    obtain ⟨ls, hspells, hsources, hmeanings⟩ := ih
    refine ⟨l :: ls, hsource ▸ .cons hfits hspells, by simp [hsource, hsources], ?_⟩
    intro ts hts
    cases hts with
    | cons ht hrest => exact .cons (hmeaning _ ht) (hmeanings _ hrest)

/-- Segments that some tokens cover one by one, which is the only way to cut a text, up to the
meaning of brackets. -/
structure UniqueCut (tokens : List Token) (segments : List (List Char)) (s : List Char) : Prop where
  length_eq : segments.length = tokens.length
  flatten_eq : segments.flatten = s
  cut : Cut (tokens.zip segments) s
  unique : ∀ cut, Cut cut s →
    cut.map Prod.snd = segments ∧ List.Forall₂ SameForm tokens (cut.map Prod.fst)

end Token

/-- The tokens of a format cut it into one segment each, and no others do. -/
theorem tokenize_unique_cut {format : String} {tokens : List Token}
    (h : tokenize format = .ok tokens) :
    ∃ segments, Token.UniqueCut tokens segments format.toList := by
  obtain ⟨ls, hspells, hreads⟩ := tokenize_eq_ok_iff.mp h
  refine ⟨ls.map (·.source), ?_, hspells.flatten_source, Token.cut_of_spells hspells hreads, ?_⟩
  · rw [List.length_map, hreads.length_eq]
  · intro cut hcut
    obtain ⟨ls', hspells', hsources, hmeanings⟩ := hcut.exists_spells
    obtain rfl : ls = ls' := hspells.scan_eq.symm.trans hspells'.scan_eq
    exact ⟨hsources.symm, hmeanings tokens hreads⟩

/-- Date codes are as long as possible, and three quotes in a row are a quote that is not closed. -/
theorem tokenize_unique_cut_runs :
    ∃ segments, Token.UniqueCut
      [.date "yyyy", .date "y", .scientific "+", .color "Red", .quoted "\x22"] segments
      "yyyyyE+[Red]\x22\x22\x22".toList := by
  have h : tokenize "yyyyyE+[Red]\x22\x22\x22" =
      .ok [.date "yyyy", .date "y", .scientific "+", .color "Red", .quoted "\x22"] := rfl
  exact tokenize_unique_cut h

end FormatCode
