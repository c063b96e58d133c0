import FormatCode.Proofs.Format.Choice
import FormatCode.Proofs.Format.Visible
import FormatCode.Proofs.Token.Joining

/-!
# Formats that are joined

Formats of one section each can be joined by separators, if none but the last leaves anything open.
A value is then shown as it is by the format that is chosen for it. The formats share one list of
tokens, but all that the other formats change about a section is its scale, and the scale takes no
part in what is shown.

## Main definitions

* `SectionText` — a format of one section.
* `SectionText.join` — formats joined by separators.

## Main statements

* `SectionText.parse_join` — the sections of joined formats are their own, but for the scales.
* `SectionText.render_join` — joined formats show a value as the format that is chosen for it.
-/

namespace FormatCode

/-! ## The chosen section alone -/

namespace Format

lemma renderCell_congr {f f' : Format} {v : CellValue} (h : f.select v = f'.select v) :
    f.renderCell v = f'.renderCell v := by
  unfold renderCell verdict
  rw [h]

/-- The scale takes no part in what is shown. -/
theorem renderCell_unscaled {s s' : Section} (h : s.unscaled = s'.unscaled) (v : CellValue) :
    renderCell ⟨[s]⟩ v = renderCell ⟨[s']⟩ v := by
  have hvisible := congrArg (fun s => visible ⟨[s]⟩) h
  change visible ⟨[s]⟩ = visible ⟨[s']⟩ at hvisible
  rw [← renderCell_visible ⟨[s]⟩, hvisible, renderCell_visible]

/-- A section that stands alone has the last word on the values that are not for it. -/
lemma renderCell_of_chosen_eq_none {s : Section} {v : CellValue} (hs : s.IsComparable)
    (hv : ¬ v.IsNan) (h : chosen id [s] v = none) :
    renderCell ⟨[s]⟩ v = v.plainText.map fun text => ⟨String.ofList text, none⟩ := by
  cases v with
  | text text => simp [chosen] at h
  | number n =>
    cases hc : s.condition with
    | none => simp [chosen, hc] at h
    | some c =>
      have hclaims := Section.claims_eq (hs.decides (mt CellValue.IsDecimalNan.isNan hv))
      have haccepts : s.accepts (.number n) = false := by
        simpa [chosen, hc] using h
      rw [haccepts, Section.claims, hc] at hclaims
      simp only [renderCell, verdict, select, choose, Except.map, Option.bind_some,
        List.getElem?_cons_zero, bind, Except.bind, hc, hclaims]
      rfl

lemma chosen_singleton {s t : Section} {v : CellValue} (h : chosen id [s] v = some t) : t = s :=
  List.mem_singleton.mp (mem_of_chosen id h)

/-- A format shows a value as the section alone that is chosen for it, and as it is if there is
none. -/
theorem renderCell_eq_chosen {f : Format} (hne : f.sections ≠ [])
    (hs : ∀ s ∈ f.sections, s.IsComparable) {v : CellValue} (hv : ¬ v.IsNan) :
    f.renderCell v = match chosen id f.sections v with
      | some s => renderCell ⟨[s]⟩ v
      | none => v.plainText.map fun text => ⟨String.ofList text, none⟩ := by
  obtain ⟨sections⟩ := f
  match sections, hne with
  | [s], _ =>
    cases h : chosen id [s] v with
    | none => exact renderCell_of_chosen_eq_none (hs s (by simp)) hv h
    | some t => rw [chosen_singleton h]
  | s :: t :: rest, _ =>
    have hselect := select_eq_chosen (f := ⟨s :: t :: rest⟩) (by simp) hs
      (mt CellValue.IsDecimalNan.isNan hv)
    cases h : chosen id (s :: t :: rest) v with
    | none =>
      rw [h] at hselect
      simp only [renderCell, verdict, hselect, bind, Except.bind, pure, Except.pure]
      rfl
    | some u => exact renderCell_congr (hselect.trans (congrArg Except.ok h))

end Format

/-! ## Sections of texts -/

namespace Section

lemma condition_addAll {s : Section} {before : Option Token} {ts tail : List Token} {c : Condition}
    (h : (s.addAll before ts tail).condition = some c) :
    s.condition = some c ∨ .condition c.operator c.threshold ∈ ts := by
  induction ts generalizing s before with
  | nil => exact .inl h
  | cons t ts ih =>
    obtain h | h := ih h
    · cases t with
      | condition operator threshold =>
        obtain rfl := Option.some.inj h
        exact .inr (List.mem_cons_self ..)
      | _ => exact .inl h
    · exact .inr (List.mem_cons_of_mem _ h)

end Section

namespace Token

lemma isThreshold_of_value {t : Threshold} {v : Value} (h : t.value = .ok v) : v.IsThreshold := by
  unfold Threshold.value at h
  split at h
  · obtain rfl := Except.ok.inj h
    exact Binary64.not_isNan_ofDecimal _ _ _
  · split at h
    · obtain rfl := Except.ok.inj h
      trivial
    · cases h

lemma exists_value_of_ofBracket {content : List Char} {operator : String} {threshold : Value}
    (h : ofBracket content = .ok (.condition operator threshold)) :
    ∃ (relation : Comparison) (t : Threshold),
      operator = relation.symbol ∧ t.value = .ok threshold := by
  unfold ofBracket at h
  split at h
  · next relation t _ =>
    cases hv : t.value with
    | error e => simp [hv, Except.map] at h
    | ok v =>
      have heq : relation.symbol = operator ∧ v = threshold := by simpa [hv, Except.map] using h
      obtain ⟨rfl, rfl⟩ := heq
      exact ⟨relation, t, rfl, hv⟩
  · split at h <;> cases h

/-- The conditions of a format that is read have one of the six operators, and thresholds that are
read. -/
theorem exists_value_of_tokenize {format : String} {ts : List Token} (h : tokenize format = .ok ts)
    {operator : String} {threshold : Value} (hmem : .condition operator threshold ∈ ts) :
    ∃ (relation : Comparison) (t : Threshold),
      operator = relation.symbol ∧ t.value = .ok threshold := by
  obtain ⟨l, -, -, hl⟩ := exists_ofLexeme_of_tokenize h hmem
  cases l with
  | bracket content closed => exact exists_value_of_ofBracket hl
  | _ => cases Except.ok.inj hl

/-- The conditions of a format that is read can be read. -/
theorem isComparable_of_tokenize {format : String} {ts : List Token} (h : tokenize format = .ok ts)
    {operator : String} {threshold : Value} (hmem : .condition operator threshold ∈ ts) :
    Condition.IsComparable ⟨operator, threshold⟩ := by
  obtain ⟨relation, t, rfl, ht⟩ := exists_value_of_tokenize h hmem
  exact ⟨⟨relation, rfl⟩, isThreshold_of_value ht⟩

end Token

/-- Each section of a format that is read is that of some of the tokens, alone. -/
theorem Format.exists_sublist_of_parse {format : String} {f : Format} (h : parse format = .ok f) :
    ∃ ts, tokenize format = .ok ts ∧ ∀ s ∈ f.sections, ∃ vs tail, vs.Sublist ts ∧
      s = Section.addAll {} none vs tail := by
  cases htokenize : tokenize format with
  | error e => simp [parse, htokenize, bind, Except.bind] at h
  | ok ts =>
    obtain ⟨us, pieces, rfl, hseparator⟩ := exists_pieces ts
    have hpieces := ofTokens_pieces us pieces
      (fun vs hvs t ht => isKnown_of_tokenize htokenize t (mem_append_followingTokens hvs ht))
      hseparator
    rw [parse, htokenize] at h
    obtain rfl := Except.ok.inj (hpieces.symm.trans h)
    refine ⟨_, rfl, fun s hs => ?_⟩
    obtain ⟨vs, hvs, tail, -, hs⟩ := Section.exists_piece_of_mem (mem_of_mem_dropBlankLast hs)
    exact ⟨vs, tail, sublist_append_followingTokens hvs, hs⟩

/-- The condition of a section of a format that is read is one of the tokens. -/
lemma Format.exists_condition_of_parse {format : String} {f : Format} (h : parse format = .ok f) :
    ∃ ts, tokenize format = .ok ts ∧ ∀ s ∈ f.sections, ∀ c, s.condition = some c →
      .condition c.operator c.threshold ∈ ts := by
  obtain ⟨ts, htokenize, hsections⟩ := exists_sublist_of_parse h
  refine ⟨ts, htokenize, fun s hs c hc => ?_⟩
  obtain ⟨vs, tail, hvs, rfl⟩ := hsections s hs
  obtain hnone | hcondition := Section.condition_addAll hc
  · cases hnone
  · exact hvs.mem hcondition

/-- The conditions of a format can be read, if its text can. -/
theorem Format.isComparable_of_parse {format : String} {f : Format} (h : parse format = .ok f) :
    ∀ s ∈ f.sections, s.IsComparable := by
  obtain ⟨ts, htokenize, hconditions⟩ := exists_condition_of_parse h
  intro s hs c hc
  exact Token.isComparable_of_tokenize htokenize (hconditions s hs c hc)

/-- A text that is read as a format of one section, without a separator. -/
structure SectionText where
  text : String
  tokens : List Token
  /-- The section of the text alone. -/
  alone : Section
  tokenize_eq : tokenize text = .ok tokens
  separator_notMem : .sectionSeparator ∉ tokens
  parse_eq : Format.parse text = .ok ⟨[alone]⟩

namespace SectionText

/-- Whether a text leaves nothing open: a separator after it is read as one. -/
def IsClosed (p : SectionText) : Prop := Token.Closes p.tokens p.text

def join (pieces : List SectionText) : String := ";".intercalate (pieces.map text)

lemma dropBlankLast_alone (p : SectionText) :
    dropBlankLast [Section.addAll {} none p.tokens []] = [p.alone] := by
  have hparse := p.parse_eq
  have hpieces := Format.ofTokens_pieces p.tokens []
    (by simpa using isKnown_of_tokenize p.tokenize_eq) (by simpa using p.separator_notMem)
  rw [Format.parse, p.tokenize_eq] at hparse
  rw [followingTokens, List.flatMap_nil, List.append_nil] at hpieces
  exact congrArg Format.sections (Except.ok.inj (hpieces.symm.trans hparse))

lemma alone_eq (p : SectionText) : p.alone = Section.addAll {} none p.tokens [] := by
  have h := p.dropBlankLast_alone
  rw [dropBlankLast] at h
  split at h
  · cases h
  · exact (List.singleton_inj.mp h).symm

lemma parts_ne_nil (p : SectionText) : p.alone.parts ≠ [] := by
  have h := p.dropBlankLast_alone
  rw [dropBlankLast, ← p.alone_eq] at h
  intro hparts
  simp [hparts] at h

lemma isComparable (p : SectionText) : p.alone.IsComparable := by
  intro c hc
  rw [alone_eq] at hc
  obtain h | h := Section.condition_addAll hc
  · cases h
  · exact Token.isComparable_of_tokenize p.tokenize_eq h

/-! ## Joined texts -/

lemma tokenize_join (p : SectionText) (rest : List SectionText)
    (hclosed : ∀ q ∈ (p :: rest).dropLast, q.IsClosed) :
    tokenize (join (p :: rest)) = .ok (p.tokens ++ followingTokens (rest.map tokens)) := by
  induction rest generalizing p with
  | nil => simp [join, followingTokens, p.tokenize_eq]
  | cons q rest ih =>
    rw [List.dropLast_cons_cons, List.forall_mem_cons] at hclosed
    have hmore := ih q hclosed.2
    rw [join, List.map_cons, List.map_cons, String.intercalate_cons_cons]
    exact tokenize_append hclosed.1 hmore

end SectionText

lemma dropBlankLast_eq_self {sections : List Section} (h : ∀ s ∈ sections, s.parts ≠ []) :
    dropBlankLast sections = sections := by
  induction sections with
  | nil => rfl
  | cons s rest ih =>
    rw [List.forall_mem_cons] at h
    cases rest with
    | nil => rw [dropBlankLast, if_neg h.1]
    | cons t rest => rw [dropBlankLast, ih h.2]

namespace SectionText

lemma exists_alone_of_mem {sections : List Section} {pieces : List SectionText}
    (h : sections.map Section.unscaled = pieces.map fun p => p.alone.unscaled) {s : Section}
    (hs : s ∈ sections) : ∃ p : SectionText, p.alone.unscaled = s.unscaled := by
  have hmem := List.mem_map_of_mem (f := Section.unscaled) hs
  rw [h, List.mem_map] at hmem
  obtain ⟨p, -, hp⟩ := hmem
  exact ⟨p, hp⟩

/-- The sections of joined texts are their own, but for the scales. -/
theorem parse_join {pieces : List SectionText} (hne : pieces ≠ [])
    (hclosed : ∀ p ∈ pieces.dropLast, p.IsClosed) :
    ∃ sections, Format.parse (join pieces) = .ok ⟨sections⟩ ∧
      sections.map Section.unscaled = pieces.map fun p => p.alone.unscaled := by
  obtain ⟨p, rest, rfl⟩ := List.exists_cons_of_ne_nil hne
  have hunscaled := Section.map_unscaled_ofPieces ((p :: rest).map tokens)
  simp only [List.map_map, Function.comp_def, ← alone_eq] at hunscaled
  refine ⟨_, ?_, hunscaled⟩
  have hpieces := Format.ofTokens_pieces p.tokens (rest.map tokens)
    (by simpa using fun q (hq : q = p ∨ q ∈ rest) => isKnown_of_tokenize q.tokenize_eq)
    (by simpa using fun q (hq : q = p ∨ q ∈ rest) => q.separator_notMem)
  rw [Format.parse, tokenize_join p rest hclosed]
  refine hpieces.trans ?_
  rw [dropBlankLast_eq_self]
  · rfl
  · intro s hs
    -- No section is dropped, since each has the parts that its text has alone.
    obtain ⟨q, hq⟩ := exists_alone_of_mem hunscaled hs
    have hparts : q.alone.parts = s.parts := congrArg (·.parts) hq
    exact hparts ▸ q.parts_ne_nil

lemma render_text (p : SectionText) (v : CellValue) :
    render v.toValue (.text p.text) = Format.renderCell ⟨[p.alone]⟩ v := by
  simp only [render, Value.toText, bind, Except.bind, p.parse_eq, Format.render,
    Value.toCell_toValue]

/-- Texts of one section each that are joined by separators show a value as the text that is chosen
for it shows it, and the value as it is if there is none. -/
theorem render_join {pieces : List SectionText} (hne : pieces ≠ [])
    (hclosed : ∀ p ∈ pieces.dropLast, p.IsClosed) {v : CellValue} (hv : ¬ v.IsNan) :
    render v.toValue (.text (join pieces)) = match chosen alone pieces v with
      | some p => render v.toValue (.text p.text)
      | none => v.plainText.map fun text => ⟨String.ofList text, none⟩ := by
  obtain ⟨sections, hparse, hunscaled⟩ := parse_join hne hclosed
  have hrender : render v.toValue (.text (join pieces)) = Format.renderCell ⟨sections⟩ v := by
    simp only [render, Value.toText, bind, Except.bind, hparse, Format.render,
      Value.toCell_toValue]
  have hsections : sections ≠ [] := by
    rintro rfl
    exact hne (List.map_eq_nil_iff.mp hunscaled.symm)
  have hcomparable : ∀ s ∈ sections, s.IsComparable := by
    intro s hs c hc
    obtain ⟨q, hq⟩ := exists_alone_of_mem hunscaled hs
    have hcondition : q.alone.condition = s.condition := congrArg (·.condition) hq
    exact q.isComparable c (hcondition.trans hc)
  have hchosen : (chosen id sections v).map Section.unscaled =
      (chosen alone pieces v).map fun p => p.alone.unscaled := by
    calc (chosen id sections v).map Section.unscaled
      _ = chosen id (sections.map Section.unscaled) v :=
        (chosen_map id (f := Section.unscaled) (fun s => rfl) sections v).symm
      _ = chosen id (pieces.map fun p => p.alone.unscaled) v := by rw [hunscaled]
      _ = (chosen alone pieces v).map fun p => p.alone.unscaled :=
        chosen_map alone (f := fun p => p.alone.unscaled) (fun p => rfl) pieces v
  rw [hrender, Format.renderCell_eq_chosen hsections hcomparable hv]
  cases hs : chosen id sections v with
  | none =>
    rw [hs] at hchosen
    rw [Option.map_eq_none_iff.mp hchosen.symm]
  | some s =>
    rw [hs] at hchosen
    obtain ⟨p, hp, hps⟩ := Option.map_eq_some_iff.mp hchosen.symm
    rw [hp]
    exact (Format.renderCell_unscaled hps.symm v).trans (p.render_text v).symm

def negatives : SectionText where
  text := "[<0]0,"
  tokens := [.condition "<" (.int 0), .placeholder "0", .thousandSep]
  alone := { condition := some ⟨"<", .int 0⟩, parts := [.placeholder .zero], scale := 1000 }
  tokenize_eq := rfl
  separator_notMem := by simp
  parse_eq := rfl

def tenths : SectionText where
  text := "0.0"
  tokens := [.placeholder "0", .decimalPoint, .placeholder "0"]
  alone := { parts := [.placeholder .zero, .point, .placeholder .zero] }
  tokenize_eq := rfl
  separator_notMem := by simp
  parse_eq := rfl

/-- The comma of the first text does not scale in the joined one, which does not matter. -/
theorem render_join_negatives :
    render (.int (-5)) (.text "[<0]0,;0.0") = render (.int (-5)) (.text "[<0]0,") := by
  have hclosed : negatives.IsClosed := rfl
  have hnan : ¬ (CellValue.number (.int (-5))).IsNan := id
  have hchosen : chosen alone [negatives, tenths] (.number (.int (-5))) = some negatives := rfl
  have h := @render_join [negatives, tenths] (by simp) (by simpa using hclosed) _ hnan
  rwa [hchosen] at h

end SectionText

end FormatCode
