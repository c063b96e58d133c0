import FormatCode.Proofs.Format.Pieces
import FormatCode.Proofs.Token.Joining
import FormatCode.Proofs.Token.Spelling

/-!
# Printing formats

A format can be printed if its sections hold what a format that is read can hold. Each part is
printed as a token of its own and every character of literal text is escaped, so no part changes how
another is read. A comma says that digits are grouped, or that the section scales: between the first
two placeholders that are adjacent it groups, and after the last one of the format it scales.

## Main definitions

* `Section.WellFormed`, `Format.WellFormed` — formats that can be printed.
* `Section.tokens`, `Format.tokens` — the tokens that are printed.
* `Format.print` — the text of a format.

## Main statements

* `Section.addAll_partTokens` — what the tokens of parts do to a section.
* `Section.addAll_tokens` — the tokens of a section are read as the section.
* `Format.parse_print` — a format that is printed is read as itself.
-/

namespace FormatCode

/-! ## Formats that can be printed -/

def adjacentPlaceholders : List Part → Bool
  | p :: q :: rest => p.isPlaceholder && q.isPlaceholder || adjacentPlaceholders (q :: rest)
  | _ => false

/-- Whether a part is one of those that are read: literal text is one character. -/
def Part.WellFormed : Part → Prop
  | blank => False
  | literal text => text.length = 1
  | _ => True

def Condition.WellFormed (c : Condition) : Prop :=
  ∃ (relation : Comparison) (i : Int), c = ⟨relation.symbol, .int i⟩ ∧
    Numeral.digitCount i.natAbs ≤ Numeral.maxDigits

/-- What a section that can be printed holds, but for its scale. -/
structure Section.WellFormed (s : Section) : Prop where
  color : ∀ name ∈ s.color, name ∈ colors
  condition : ∀ c ∈ s.condition, c.WellFormed
  parts : ∀ p ∈ s.parts, p.WellFormed
  percentCount : s.percentCount = s.parts.count .percent
  grouped : s.grouped → adjacentPlaceholders s.parts
  scientific : ∀ sign ∈ s.scientific, sign = "+" ∨ sign = "-"

/-- Whether at most the section with the last placeholder of all scales, and by a thousand. -/
def scalesLast : List Section → Prop
  | [] => True
  | s :: rest =>
    (s.scale = 1 ∨ s.scale = 1000 ∧ s.parts.any Part.isPlaceholder ∧
      rest.any (·.parts.any Part.isPlaceholder) = false) ∧ scalesLast rest

structure Format.WellFormed (f : Format) : Prop where
  sections : ∀ s ∈ f.sections, s.WellFormed
  scales : scalesLast f.sections

/-! ## The printer -/

/-- The token of a part. Literal text is escaped. -/
def Part.token : Part → Token
  | blank => .bare
  | placeholder p => .placeholder (String.ofList [p.mark])
  | percent => .percentMark
  | point => .decimalPoint
  | literal text => .escape text

/-- The tokens of parts. A comma that groups stands between the first two placeholders that are
adjacent, and one that scales after the last placeholder. -/
def partTokens (grouped scaled : Bool) : List Part → List Token
  | [] => []
  | p :: rest =>
    p.token ::
      if grouped && p.isPlaceholder && rest.head?.any Part.isPlaceholder then
        .thousandSep :: partTokens false scaled rest
      else if scaled && p.isPlaceholder && !rest.any Part.isPlaceholder then
        .thousandSep :: partTokens grouped false rest
      else partTokens grouped scaled rest

namespace Section

def colorTokens (s : Section) : List Token := s.color.toList.map fun name => .color (some name)

def conditionTokens (s : Section) : List Token :=
  s.condition.toList.map fun c => .condition c.operator c.threshold

def exponentTokens (s : Section) : List Token :=
  s.scientific.toList.map fun sign => .scientific (some sign)

def tokens (s : Section) : List Token :=
  s.colorTokens ++ (s.conditionTokens ++
    (partTokens s.grouped (s.scale == 1000) s.parts ++ s.exponentTokens))

end Section

/-- The tokens of sections one by one. An empty piece follows a last section without parts, which
would not be read otherwise. -/
def sectionPieces : List Section → List (List Token)
  | [] => []
  | [s] => s.tokens :: if s.parts = [] then [[]] else []
  | s :: t :: rest => s.tokens :: sectionPieces (t :: rest)

def Format.tokens (f : Format) : List Token :=
  [Token.sectionSeparator].intercalate (sectionPieces f.sections)

def Format.print (f : Format) : String := String.ofList (f.tokens.flatMap Token.spell)

/-! ## Reading parts -/

@[simp] lemma Part.isPlaceholder_token (p : Part) : p.token.isPlaceholder = p.isPlaceholder := by
  cases p <;> rfl

lemma any_partTokens (grouped scaled : Bool) (parts : List Part) :
    (partTokens grouped scaled parts).any Token.isPlaceholder = parts.any Part.isPlaceholder := by
  induction parts generalizing grouped scaled with
  | nil => rfl
  | cons p rest ih =>
    have hcomma : Token.thousandSep.isPlaceholder = false := rfl
    rw [partTokens]
    split_ifs <;>
      simp only [List.any_cons, ih, hcomma, Part.isPlaceholder_token, Bool.false_or]

lemma adjacentPlaceholders_cons (p : Part) (rest : List Part) :
    adjacentPlaceholders (p :: rest) =
      (p.isPlaceholder && rest.head?.any Part.isPlaceholder || adjacentPlaceholders rest) := by
  cases rest with
  | nil => simp [adjacentPlaceholders]
  | cons q rest => rfl

lemma any_of_head?_any {α : Type} {p : α → Bool} {items : List α} (h : items.head?.any p) :
    items.any p := by
  obtain ⟨a, ha, hp⟩ := (Option.any_eq_true _ _).mp h
  exact List.any_eq_true.mpr ⟨a, List.mem_of_head? ha, hp⟩

namespace Section

/-- The token of a part adds the part. -/
lemma add_token {p : Part} (hp : p.WellFormed) (s : Section) (before : Option Token)
    (after : List Token) :
    s.add before after p.token =
      { s with
        parts := s.parts ++ [p]
        percentCount := s.percentCount + [p].count .percent } := by
  cases p with
  | blank => exact hp.elim
  | placeholder p =>
    simp only [add, Part.token, Token.parts, Placeholder.ofMark?_mark]
    simp [Token.groups, Token.scales]
  | literal text =>
    have htext : text.isEmpty = false := by
      rw [← Bool.not_eq_true, String.isEmpty_iff]
      rintro rfl
      cases hp
    simp [add, Part.token, Token.parts, Token.groups, Token.scales, htext]
  | _ => simp [add, Part.token, Token.parts, Token.groups, Token.scales]

/-- A comma after a placeholder groups before another one and scales after the last one. -/
lemma add_comma {t : Token} (ht : t.isPlaceholder) (s : Section) (after : List Token) :
    s.add (some t) after .thousandSep =
      { s with
        grouped := s.grouped || after.head?.any Token.isPlaceholder
        scale := if after.any Token.isPlaceholder then s.scale else s.scale * 1000 } := by
  have hparts : Token.thousandSep.parts (some t) = [] := Token.parts_thousandSep ht
  by_cases hafter : after.any Token.isPlaceholder
  · simp [add, Token.groups, Token.scales, ht, hparts, hafter]
  · simp [add, Token.groups, Token.scales, ht, hparts, hafter]

/-- What the tokens of parts do to a section, if no placeholder follows where the section scales. -/
theorem addAll_partTokens {parts : List Part} (hparts : ∀ p ∈ parts, p.WellFormed)
    {scaled : Bool} {tail : List Token} (htail : scaled → tail.any Token.isPlaceholder = false)
    (grouped : Bool) (s : Section) (before : Option Token) :
    s.addAll before (partTokens grouped scaled parts) tail =
      { s with
        parts := s.parts ++ parts
        percentCount := s.percentCount + parts.count .percent
        grouped := s.grouped || grouped && adjacentPlaceholders parts
        scale := if scaled && parts.any Part.isPlaceholder then s.scale * 1000 else s.scale } := by
  induction parts generalizing grouped scaled s before with
  | nil => simp [partTokens, addAll, adjacentPlaceholders]
  | cons p rest ih =>
    rw [List.forall_mem_cons] at hparts
    rw [partTokens, addAll, add_token hparts.1]
    have hcount : s.percentCount + (p :: rest).count .percent =
        s.percentCount + [p].count .percent + rest.count .percent := by
      rw [← List.singleton_append, List.count_append, Nat.add_assoc]
    have hparts' : s.parts ++ p :: rest = s.parts ++ [p] ++ rest := by simp
    rw [hcount, hparts', adjacentPlaceholders_cons, List.any_cons]
    by_cases hgroups : grouped && p.isPlaceholder && rest.head?.any Part.isPlaceholder
    · -- The comma stands between two placeholders.
      rw [if_pos hgroups]
      simp only [Bool.and_eq_true] at hgroups
      obtain ⟨⟨hgrouped, hp⟩, hnext⟩ := hgroups
      have hrest := any_of_head?_any hnext
      have hafter : (partTokens false scaled rest ++ tail).any Token.isPlaceholder := by
        rw [List.any_append, any_partTokens, hrest, Bool.true_or]
      have hhead : (partTokens false scaled rest ++ tail).head?.any Token.isPlaceholder := by
        have hrest_ne : rest ≠ [] := by
          rintro rfl
          simp at hnext
        obtain ⟨q, more, rfl⟩ := List.exists_cons_of_ne_nil hrest_ne
        simpa [partTokens] using hnext
      rw [addAll, add_comma (by simpa using hp), ih hparts.2 htail, hafter, hhead]
      simp [hgrouped, hp, hnext, hrest]
    have hgrouped : (grouped && (p.isPlaceholder && rest.head?.any Part.isPlaceholder ||
        adjacentPlaceholders rest)) = (grouped && adjacentPlaceholders rest) := by grind
    rw [if_neg hgroups]
    by_cases hscales : scaled && p.isPlaceholder && !rest.any Part.isPlaceholder
    · -- The comma stands after the last placeholder.
      rw [if_pos hscales]
      simp only [Bool.and_eq_true, Bool.not_eq_true'] at hscales
      obtain ⟨⟨hscaled, hp⟩, hrest⟩ := hscales
      have hafter : (partTokens grouped false rest ++ tail).any Token.isPlaceholder = false := by
        rw [List.any_append, any_partTokens, hrest, htail hscaled, Bool.or_false]
      have hhead : (partTokens grouped false rest ++ tail).head?.any Token.isPlaceholder =
          false := by
        rw [← Bool.not_eq_true]
        intro h
        simp [any_of_head?_any h] at hafter
      have hunscaled : false → tail.any Token.isPlaceholder = false := by simp
      rw [addAll, add_comma (by simpa using hp), ih hparts.2 hunscaled, hafter, hhead, hgrouped]
      simp [hscaled, hp]
    · have hscaled : (scaled && (p.isPlaceholder || rest.any Part.isPlaceholder)) =
          (scaled && rest.any Part.isPlaceholder) := by grind
      rw [if_neg hscales, ih hparts.2 htail, hgrouped, hscaled]

end Section

/-! ## Reading sections -/

namespace Section

lemma addAll_append (s : Section) (before : Option Token) (ts us tail : List Token) :
    ∃ before', s.addAll before (ts ++ us) tail =
      (s.addAll before ts (us ++ tail)).addAll before' us tail := by
  induction ts generalizing s before with
  | nil => exact ⟨before, rfl⟩
  | cons t ts ih =>
    obtain ⟨before', h⟩ := ih (s.add before (ts ++ (us ++ tail)) t) (some t)
    refine ⟨before', ?_⟩
    rw [List.cons_append, addAll, addAll, List.append_assoc, h]

lemma addAll_colorTokens (s : Section) (before : Option Token) (tail : List Token) :
    addAll {} before s.colorTokens tail = { color := s.color } := by
  unfold colorTokens
  cases s.color <;> rfl

lemma addAll_conditionTokens (s : Section) (before : Option Token) (tail : List Token) :
    addAll { color := s.color } before s.conditionTokens tail =
      { color := s.color, condition := s.condition } := by
  unfold conditionTokens
  cases s.condition <;> rfl

lemma addAll_exponentTokens (s : Section) {s' : Section} (h : s'.scientific = none)
    (before : Option Token) (tail : List Token) :
    s'.addAll before s.exponentTokens tail = { s' with scientific := s.scientific } := by
  unfold exponentTokens
  cases s.scientific with
  | none =>
    have hnone : { s' with scientific := none } = s' := by rw [← h]
    exact hnone.symm
  | some sign => simp [addAll, add, Token.parts, Token.groups, Token.scales]

lemma any_exponentTokens (s : Section) : s.exponentTokens.any Token.isPlaceholder = false := by
  unfold exponentTokens
  cases s.scientific <;> rfl

/-- Only the parts of a section have placeholders. -/
lemma any_tokens (s : Section) :
    s.tokens.any Token.isPlaceholder = s.parts.any Part.isPlaceholder := by
  have hcolor : s.colorTokens.any Token.isPlaceholder = false := by
    unfold colorTokens
    cases s.color <;> rfl
  have hcondition : s.conditionTokens.any Token.isPlaceholder = false := by
    unfold conditionTokens
    cases s.condition <;> rfl
  simp only [tokens, List.any_append, hcolor, hcondition, any_partTokens, any_exponentTokens,
    Bool.false_or, Bool.or_false]

/-- Whether a section has no scale but by a thousand, which it has the last placeholder for. -/
def ScalesBefore (s : Section) (tail : List Token) : Prop :=
  s.scale = 1 ∨ s.scale = 1000 ∧ s.parts.any Part.isPlaceholder ∧
    tail.any Token.isPlaceholder = false

/-- The tokens of a section are read as the section. -/
theorem addAll_tokens {s : Section} (h : s.WellFormed) {tail : List Token}
    (hscale : s.ScalesBefore tail) (before : Option Token) :
    addAll {} before s.tokens tail = s := by
  have htail : (s.scale == 1000) = true →
      (s.exponentTokens ++ tail).any Token.isPlaceholder = false := by
    intro hthousand
    obtain hone | ⟨-, -, htail⟩ := hscale
    · simp [hone] at hthousand
    · rw [List.any_append, any_exponentTokens, htail, Bool.or_false]
  have hscaled : (if (s.scale == 1000 && s.parts.any Part.isPlaceholder) = true then 1 * 1000
      else 1) = s.scale := by
    obtain hone | ⟨hthousand, hplaceholder, -⟩ := hscale
    · simp [hone]
    · simp [hthousand, hplaceholder]
  have hgrouped : (s.grouped && adjacentPlaceholders s.parts) = s.grouped := by
    have := h.grouped
    grind
  obtain ⟨before₁, h₁⟩ := addAll_append {} before s.colorTokens (s.conditionTokens ++
    (partTokens s.grouped (s.scale == 1000) s.parts ++ s.exponentTokens)) tail
  obtain ⟨before₂, h₂⟩ := addAll_append { color := s.color } before₁ s.conditionTokens
    (partTokens s.grouped (s.scale == 1000) s.parts ++ s.exponentTokens) tail
  obtain ⟨before₃, h₃⟩ := addAll_append { color := s.color, condition := s.condition } before₂
    (partTokens s.grouped (s.scale == 1000) s.parts) s.exponentTokens tail
  rw [tokens, h₁, addAll_colorTokens, h₂, addAll_conditionTokens, h₃,
    addAll_partTokens h.parts htail, addAll_exponentTokens s rfl, hscaled]
  simp [hgrouped, ← h.percentCount]

end Section

/-! ## Reading formats -/

lemma intercalate_separator (ts : List Token) (pieces : List (List Token)) :
    [Token.sectionSeparator].intercalate (ts :: pieces) = ts ++ followingTokens pieces := by
  induction pieces generalizing ts with
  | nil => simp [followingTokens]
  | cons us pieces ih =>
    rw [List.intercalate_cons_cons, ih, followingTokens_cons, List.append_assoc]
    rfl

/-- The placeholders of pieces are those of the sections. -/
lemma any_sectionPieces (sections : List Section) :
    (followingTokens (sectionPieces sections)).any Token.isPlaceholder =
      sections.any (·.parts.any Part.isPlaceholder) := by
  have hseparator : Token.sectionSeparator.isPlaceholder = false := rfl
  induction sections with
  | nil => rfl
  | cons s rest ih =>
    have hcons : ∀ pieces, (followingTokens (s.tokens :: pieces)).any Token.isPlaceholder =
        (s.parts.any Part.isPlaceholder || (followingTokens pieces).any Token.isPlaceholder) := by
      intro pieces
      rw [followingTokens_cons, List.any_cons, List.any_append, hseparator, Section.any_tokens,
        Bool.false_or]
    cases rest with
    | nil =>
      rw [sectionPieces, hcons]
      split <;> rfl
    | cons t rest =>
      rw [sectionPieces, hcons, ih]
      rfl

/-- The pieces of sections are read as the sections. -/
theorem dropBlankLast_ofPieces {sections : List Section} (h : ∀ s ∈ sections, s.WellFormed)
    (hscales : scalesLast sections) (before : Option Token) :
    dropBlankLast (Section.ofPieces before (sectionPieces sections)) = sections := by
  induction sections generalizing before with
  | nil => rfl
  | cons s rest ih =>
    rw [List.forall_mem_cons] at h
    cases rest with
    | nil =>
      by_cases hparts : s.parts = []
      · -- An empty piece follows, and only that one is dropped.
        have hscale : s.ScalesBefore (followingTokens [[]]) := hscales.1
        rw [sectionPieces, if_pos hparts, Section.ofPieces, Section.addAll_tokens h.1 hscale]
        rfl
      · have hscale : s.ScalesBefore (followingTokens []) := hscales.1
        rw [sectionPieces, if_neg hparts, Section.ofPieces, Section.addAll_tokens h.1 hscale,
          Section.ofPieces, dropBlankLast, if_neg hparts]
    | cons t rest =>
      have hscale : s.ScalesBefore (followingTokens (sectionPieces (t :: rest))) := by
        rw [Section.ScalesBefore, any_sectionPieces]
        exact hscales.1
      rw [sectionPieces, Section.ofPieces, Section.addAll_tokens h.1 hscale, dropBlankLast_cons,
        ih h.2 hscales.2]
      cases rest <;> simp [sectionPieces, Section.ofPieces]

lemma partTokens_spellable {parts : List Part} (h : ∀ p ∈ parts, p.WellFormed)
    (grouped scaled : Bool) :
    ∀ t ∈ partTokens grouped scaled parts, t.Spellable ∧ t ≠ .sectionSeparator := by
  induction parts generalizing grouped scaled with
  | nil => exact nofun
  | cons p rest ih =>
    rw [List.forall_mem_cons] at h
    have hcomma : Token.thousandSep.Spellable ∧ Token.thousandSep ≠ .sectionSeparator :=
      ⟨.comma, nofun⟩
    have hpart : p.token.Spellable ∧ p.token ≠ .sectionSeparator := by
      cases p with
      | blank => exact h.1.elim
      | placeholder p => exact ⟨.placeholder p, nofun⟩
      | percent => exact ⟨.percent, nofun⟩
      | point => exact ⟨.point, nofun⟩
      | literal text =>
        obtain ⟨c, hc⟩ := List.length_eq_one_iff.mp (String.length_toList.trans h.1)
        rw [← text.ofList_toList, hc]
        exact ⟨.escape c, nofun⟩
    rw [partTokens]
    split_ifs
    · exact List.forall_mem_cons.mpr ⟨hpart, List.forall_mem_cons.mpr ⟨hcomma, ih h.2 _ _⟩⟩
    · exact List.forall_mem_cons.mpr ⟨hpart, List.forall_mem_cons.mpr ⟨hcomma, ih h.2 _ _⟩⟩
    · exact List.forall_mem_cons.mpr ⟨hpart, ih h.2 _ _⟩

/-- The tokens of a section can be spelled, and there is no separator among them. -/
lemma Section.tokens_spellable {s : Section} (h : s.WellFormed) :
    ∀ t ∈ s.tokens, t.Spellable ∧ t ≠ .sectionSeparator := by
  have hcolor : ∀ t ∈ s.colorTokens, t.Spellable ∧ t ≠ .sectionSeparator := by
    intro t ht
    obtain ⟨name, hname, rfl⟩ := List.mem_map.mp ht
    exact ⟨.color (h.color name (Option.mem_toList.mp hname)), nofun⟩
  have hcondition : ∀ t ∈ s.conditionTokens, t.Spellable ∧ t ≠ .sectionSeparator := by
    intro t ht
    obtain ⟨c, hc, rfl⟩ := List.mem_map.mp ht
    obtain ⟨relation, i, rfl, hi⟩ := h.condition c (Option.mem_toList.mp hc)
    exact ⟨.condition relation hi, nofun⟩
  have hexponent : ∀ t ∈ s.exponentTokens, t.Spellable ∧ t ≠ .sectionSeparator := by
    intro t ht
    obtain ⟨sign, hsign, rfl⟩ := List.mem_map.mp ht
    obtain rfl | rfl := h.scientific sign (Option.mem_toList.mp hsign)
    · exact ⟨.plus, nofun⟩
    · exact ⟨.minus, nofun⟩
  rw [tokens]
  simp only [List.forall_mem_append]
  exact ⟨hcolor, hcondition, partTokens_spellable h.parts _ _, hexponent⟩

lemma sectionPieces_spellable {sections : List Section} (h : ∀ s ∈ sections, s.WellFormed) :
    ∀ ts ∈ sectionPieces sections, ∀ t ∈ ts, t.Spellable ∧ t ≠ .sectionSeparator := by
  induction sections with
  | nil => exact nofun
  | cons s rest ih =>
    rw [List.forall_mem_cons] at h
    have hs := Section.tokens_spellable h.1
    cases rest with
    | nil =>
      rw [sectionPieces, List.forall_mem_cons]
      refine ⟨hs, ?_⟩
      split <;> simp
    | cons t rest =>
      rw [sectionPieces, List.forall_mem_cons]
      exact ⟨hs, ih h.2⟩

/-- A format that is printed is read as itself. -/
theorem Format.parse_print {f : Format} (h : f.WellFormed) : Format.parse f.print = .ok f := by
  have hspellable := sectionPieces_spellable h.sections
  have hread := dropBlankLast_ofPieces h.sections h.scales none
  rw [parse, print, tokens]
  cases hpieces : sectionPieces f.sections with
  | nil =>
    rw [hpieces] at hread
    have hf : f = ⟨[]⟩ := congrArg Format.mk hread.symm
    rw [hf]
    rfl
  | cons ts pieces =>
    rw [hpieces] at hspellable hread
    have hknown : ∀ us ∈ ts :: pieces, ∀ t ∈ us, t.IsKnown := by
      intro us hus t ht
      obtain ⟨l, -, hl, -⟩ := (hspellable us hus t ht).1.exists_lexeme
      exact Token.isKnown_of_ofLexeme hl
    have hseparator : ∀ us ∈ ts :: pieces, .sectionSeparator ∉ us :=
      fun us hus hmem => (hspellable us hus _ hmem).2 rfl
    have htokens : ∀ t ∈ ts ++ followingTokens pieces, t.Spellable := by
      rw [List.forall_mem_cons] at hspellable
      intro t ht
      obtain ht | ht := List.mem_append.mp ht
      · exact (hspellable.1 t ht).1
      · obtain ⟨us, hus, ht⟩ := List.mem_flatMap.mp ht
        obtain rfl | ht := List.mem_cons.mp ht
        · exact .separator
        · exact (hspellable.2 us hus t ht).1
    rw [intercalate_separator, tokenize_spell htokens]
    refine (ofTokens_pieces ts pieces hknown hseparator).trans ?_
    rw [hread]

def threeSections : Format where
  sections := [
    { color := some "Red"
      condition := some ⟨">=", .int (-100)⟩
      parts := [.placeholder .zero, .placeholder .digit, .point, .literal ";"]
      grouped := true },
    { parts := [.placeholder .space, .percent]
      percentCount := 1
      scale := 1000
      scientific := some "+" },
    { color := some "Blue" }]

theorem parse_print_threeSections :
    Format.parse "[Red][>=-100]0,#.\\;;?,%E+;[Blue];" = .ok threeSections := by
  have hfirst : Condition.WellFormed ⟨">=", .int (-100)⟩ :=
    ⟨.atLeast, -100, rfl, by decide⟩
  have hsections : ∀ s ∈ threeSections.sections, s.WellFormed := by
    intro s hs
    simp only [threeSections, List.mem_cons, List.not_mem_nil, or_false] at hs
    obtain rfl | rfl | rfl := hs
    · constructor <;> simp [colors, hfirst, Part.WellFormed, adjacentPlaceholders,
        Part.isPlaceholder, String.length]
    · constructor <;> simp [Part.WellFormed]
    · constructor <;> simp [colors]
  have hscales : scalesLast threeSections.sections := by
    simp [threeSections, scalesLast, Part.isPlaceholder]
  have hprint : threeSections.print = "[Red][>=-100]0,#.\\;;?,%E+;[Blue];" := by decide +kernel
  rw [← hprint]
  exact Format.parse_print ⟨hsections, hscales⟩

end FormatCode
