import FormatCode.Proofs.Format.Pieces
import FormatCode.Proofs.Token.Joining

/-!
# Formats after one another

A format that leaves nothing open can be continued: after it, a separator and any other format, both
are read as they are alone. Only a comma looks beyond the section that it stands in, for a
placeholder anywhere after it, and it does so to decide whether to scale. So the format that is
continued keeps its sections but for the scales, and the format that continues it keeps all of its
own.

## Main statements

* `Format.exists_ofTokens_append` — tokens, a separator and more tokens.
* `Format.parse_append` — a format, a separator and another format.
-/

namespace FormatCode

namespace Format

/-- Tokens before a separator make sections that depend on what follows for their scales only, and
what follows makes the sections that it makes alone. -/
theorem exists_ofTokens_append {ts : List Token} (hts : ∀ t ∈ ts, t.IsKnown) :
    ∃ alone : List Section, ∀ us : List Token, (∀ t ∈ us, t.IsKnown) →
      ∃ (sections : List Section) (g : Format), ofTokens us = .ok g ∧
        ofTokens (ts ++ .sectionSeparator :: us) = .ok ⟨sections ++ g.sections⟩ ∧
        sections.map Section.unscaled = alone := by
  obtain ⟨p, pieces, rfl, hpieces⟩ := exists_pieces ts
  refine ⟨(Section.ofPieces none (p :: pieces)).map Section.unscaled, fun us hus => ?_⟩
  obtain ⟨q, pieces', rfl, hpieces'⟩ := exists_pieces us
  obtain ⟨sections, hsections, hunscaled⟩ :=
    Section.exists_ofPieces_append (p :: pieces) (q :: pieces')
  have hp : ∀ v ∈ p :: pieces, ∀ t ∈ v, t.IsKnown :=
    fun v hv t ht => hts t (mem_append_followingTokens hv ht)
  have hq : ∀ v ∈ q :: pieces', ∀ t ∈ v, t.IsKnown :=
    fun v hv t ht => hus t (mem_append_followingTokens hv ht)
  have hjoined : p ++ followingTokens pieces ++ .sectionSeparator :: (q ++ followingTokens pieces') =
      p ++ followingTokens (pieces ++ q :: pieces') := by
    rw [List.append_assoc, ← followingTokens_cons, followingTokens_append]
  have hread := ofTokens_pieces p (pieces ++ q :: pieces')
    (List.forall_mem_append.mpr ⟨hp, hq⟩)
    (List.forall_mem_append.mpr ⟨hpieces, hpieces'⟩)
  refine ⟨sections, _, ofTokens_pieces q pieces' hq hpieces', ?_, hunscaled⟩
  have hne : Section.ofPieces none (q :: pieces') ≠ [] := List.cons_ne_nil _ _
  rw [hjoined, hread, ← List.cons_append, hsections, dropBlankLast_append sections hne]

/-- A format, a separator and another format: the tokens are those of the two with the separator
between them, and the sections are those of the first and those of the second. The second format
keeps its sections as they are, the first one but for the scales. -/
theorem parse_append {format more : String} {ts us : List Token} (hformat : Token.Closes ts format)
    (hmore : tokenize more = .ok us) :
    tokenize format = .ok ts ∧
      tokenize (format ++ ";" ++ more) = .ok (ts ++ .sectionSeparator :: us) ∧
      ∃ (sections : List Section) (f g : Format),
        parse (format ++ ";") = .ok f ∧ parse more = .ok g ∧
        parse (format ++ ";" ++ more) = .ok ⟨sections ++ g.sections⟩ ∧
        sections.map Section.unscaled = f.sections.map Section.unscaled := by
  have htokens := tokenize_append hformat hmore
  refine ⟨hformat.tokenize_eq, htokens, ?_⟩
  obtain ⟨alone, hread⟩ := exists_ofTokens_append (isKnown_of_tokenize hformat.tokenize_eq)
  obtain ⟨sections, g, hg, hsections, halone⟩ := hread us (isKnown_of_tokenize hmore)
  -- Nothing follows the separator after the first format alone.
  obtain ⟨sections', f, hf, hsections', halone'⟩ := hread [] (by simp)
  obtain rfl : (⟨[]⟩ : Format) = f := Except.ok.inj hf
  refine ⟨sections, ⟨sections' ++ []⟩, g, ?_, ?_, ?_, ?_⟩
  · rw [parse, hformat]
    exact hsections'
  · rw [parse, hmore]
    exact hg
  · rw [parse, htokens]
    exact hsections
  · rw [List.append_nil, halone, halone']

/-- The comma scales at the end of a format, but not before another placeholder. -/
theorem parse_append_scale :
    ∃ (sections : List Section) (f g : Format),
      parse "0,;" = .ok f ∧ parse "[Red]0;;" = .ok g ∧
      parse "0,;[Red]0;;" = .ok ⟨sections ++ g.sections⟩ ∧
      sections.map Section.unscaled = f.sections.map Section.unscaled := by
  have hformat : Token.Closes [.placeholder "0", .thousandSep] "0," := rfl
  have hmore : tokenize "[Red]0;;" =
      .ok [.color (some "Red"), .placeholder "0", .sectionSeparator, .sectionSeparator] := rfl
  exact (parse_append hformat hmore).2.2

end Format

end FormatCode
