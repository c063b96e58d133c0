import FormatCode.Proofs.Format.Joined
import FormatCode.Proofs.Format.Printer
import FormatCode.Proofs.Format.Verdict
import FormatCode.Proofs.Outcome
import Mathlib.Data.List.DropRight

/-!
# What a format that is read holds

The tokens of a text hold only what a text can spell, and the sections that they make hold only what
can be printed again, but for their scales and conditions. So no operator and no placeholder is
looked up in vain when a value is shown. A section is checked while it is read: digits are grouped
for the sake of two placeholders around a comma, and when the comma is read, only the first of the
two has its part.

## Main definitions

* `Token.IsRead`, `Section.IsRead` — what tokens and sections of texts hold.
* `Section.IsUnfinished` — what a section holds while it is read.
* `lastPiece` — the tokens after the last separator.

## Main statements

* `Section.IsUnfinished.add`, `Section.IsUnfinished.addAll` — a token and a piece keep it so.
* `length_dropBlankLast` — how many sections some pieces make.
* `Format.isRead_of_parse` — what a format that is read holds, and that it decides on values.
-/

namespace FormatCode

/-! ## Tokens -/

namespace Token

/-- What a token of a text holds, besides the threshold of a condition. -/
def IsRead : Token → Prop
  | placeholder mark => (Placeholder.ofMark? mark).isSome
  | literal text => text.length = 1
  | escape text => text.length ≤ 1
  | color name => ∃ known ∈ colors, name = some known
  | scientific sign => sign = some "+" ∨ sign = some "-"
  | _ => True

theorem isRead_of_ofLexeme {l : Lexeme} {rest : List Char} {t : Token} (hfits : l.Fits rest)
    (h : ofLexeme l = .ok t) : t.IsRead := by
  cases l with
  | bracket content closed =>
    change ofBracket content = .ok t at h
    unfold ofBracket at h
    split at h
    · next relation threshold _ =>
      obtain ⟨v, -, rfl⟩ := Except.map_eq_ok_iff.mp h
      trivial
    · split at h <;> obtain rfl := Except.ok.inj h
      · next hcolor => exact ⟨_, by simpa using hcolor, rfl⟩
      · trivial
  | scientific mark sign =>
    obtain rfl := Except.ok.inj h
    obtain ⟨-, hsign | hsign⟩ := hfits <;> obtain rfl := Option.some.inj hsign
    · exact .inl rfl
    · exact .inr rfl
  | escape char =>
    obtain rfl := Except.ok.inj h
    cases char <;> simp [IsRead]
  | placeholder p =>
    obtain rfl := Except.ok.inj h
    exact congrArg Option.isSome (Placeholder.ofMark?_mark p)
  | _ =>
    obtain rfl := Except.ok.inj h
    simp [IsRead]

theorem isRead_of_tokenize {format : String} {ts : List Token} (h : tokenize format = .ok ts) :
    ∀ t ∈ ts, t.IsRead := by
  intro t ht
  obtain ⟨l, rest, hfits, hl⟩ := exists_ofLexeme_of_tokenize h ht
  exact isRead_of_ofLexeme hfits hl

lemma IsRead.isKnown {t : Token} (h : t.IsRead) : t.IsKnown := by
  cases t <;> grind [IsRead, IsKnown]

/-- The parts of a token of a text can be printed. -/
lemma IsRead.wellFormed_of_mem_parts {t : Token} (h : t.IsRead) {before : Option Token} {p : Part}
    (hp : p ∈ t.parts before) : p.WellFormed := by
  cases t with
  | literal text =>
    obtain ⟨-, rfl⟩ : ¬ text.isEmpty ∧ p = .literal text := by simpa [parts] using hp
    exact h
  | escape text =>
    obtain ⟨hne, rfl⟩ : text ≠ "" ∧ p = .literal text := by simpa [parts] using hp
    have hpos : text.length ≠ 0 := by simpa using hne
    have hlength : text.length ≤ 1 := h
    change text.length = 1
    omega
  | quoted text =>
    obtain ⟨c, -, rfl⟩ := List.mem_map.mp hp
    exact String.length_ofList
  | thousandSep =>
    simp only [parts] at hp
    split at hp
    · obtain rfl := List.mem_singleton.mp hp
      rfl
    · cases hp
  | placeholder mark =>
    obtain ⟨q, -, rfl⟩ := List.mem_map.mp hp
    trivial
  | decimalPoint | percentMark =>
    obtain rfl := List.mem_singleton.mp hp
    trivial
  | _ => cases hp

end Token

/-! ## Sections -/

lemma adjacentPlaceholders_append (ps qs : List Part) :
    adjacentPlaceholders (ps ++ qs) = (adjacentPlaceholders ps || adjacentPlaceholders qs ||
      ps.getLast?.any Part.isPlaceholder && qs.head?.any Part.isPlaceholder) := by
  induction ps with
  | nil => simp [adjacentPlaceholders]
  | cons p ps ih =>
    rw [List.cons_append, adjacentPlaceholders_cons, adjacentPlaceholders_cons, ih]
    cases ps <;> grind [adjacentPlaceholders]

namespace Section

def IsRead (s : Section) : Prop :=
  s.IsComparable ∧ ({ s with condition := none } : Section).WellFormed

/-- What a section holds while it is read, between the token before and the tokens after. Digits may
be grouped for the sake of a placeholder that follows the one at the end. -/
structure IsUnfinished (s : Section) (before : Option Token) (after : List Token) : Prop where
  color : ∀ name ∈ s.color, name ∈ colors
  parts : ∀ p ∈ s.parts, p.WellFormed
  percentCount : s.percentCount = s.parts.count .percent
  scientific : ∀ sign ∈ s.scientific, sign = "+" ∨ sign = "-"
  grouped : s.grouped → adjacentPlaceholders s.parts ∨
    s.parts.getLast?.any Part.isPlaceholder ∧ after.head?.any Token.isPlaceholder
  last : before.any Token.isPlaceholder → s.parts.getLast?.any Part.isPlaceholder

lemma isUnfinished_empty (after : List Token) : ({} : Section).IsUnfinished none after := by
  constructor <;> simp

lemma percentCount_add (s : Section) (before : Option Token) (after : List Token) (t : Token) :
    (s.add before after t).percentCount = s.percentCount + (t.parts before).count .percent := by
  cases t with
  | literal text | escape text =>
    simp only [add, Token.parts]
    split <;> rfl
  | quoted text => simp [add, Token.parts, List.count_eq_zero]
  | thousandSep =>
    simp only [add, Token.parts]
    split <;> rfl
  | placeholder mark => simp [add, Token.parts, List.count_eq_zero]
  | _ => rfl

theorem IsUnfinished.add {s : Section} {before : Option Token} {after : List Token} {t : Token}
    (h : s.IsUnfinished before (t :: after)) (ht : t.IsRead) :
    (s.add before after t).IsUnfinished (some t) after where
  color := by
    cases t with
    | color name =>
      obtain ⟨known, hknown, rfl⟩ := ht
      rintro _ ⟨⟩
      exact hknown
    | _ => exact h.color
  parts := by
    intro p hp
    obtain hp | hp := List.mem_append.mp hp
    · exact h.parts p hp
    · exact ht.wellFormed_of_mem_parts hp
  percentCount := by
    rw [percentCount_add, h.percentCount]
    exact List.count_append.symm
  scientific := by
    cases t with
    | scientific sign =>
      intro known hknown
      obtain rfl | rfl := ht <;> obtain rfl := Option.some.inj hknown
      · exact .inl rfl
      · exact .inr rfl
    | _ => exact h.scientific
  grouped := by
    intro hgrouped
    change adjacentPlaceholders (s.parts ++ t.parts before) ∨
      (s.parts ++ t.parts before).getLast?.any Part.isPlaceholder ∧ _
    obtain hs | hgroups : s.grouped ∨ t.groups before after := by simpa [Section.add] using hgrouped
    · left
      rw [adjacentPlaceholders_append]
      obtain hadjacent | ⟨hlast, hnext⟩ := h.grouped hs
      · simp [hadjacent]
      · -- The comma has been read, and its second placeholder is the token at hand.
        cases t with
        | placeholder mark =>
          obtain ⟨p, hp⟩ := Option.isSome_iff_exists.mp ht
          simp [Token.parts, hp, hlast, Part.isPlaceholder]
        | _ => cases hnext
    · cases t with
      | thousandSep =>
        obtain ⟨hbefore, hafter⟩ := Bool.and_eq_true_iff.mp hgroups
        rw [Token.parts_thousandSep hbefore, List.append_nil]
        exact .inr ⟨h.last hbefore, hafter⟩
      | _ => cases hgroups
  last := by
    intro hplaceholder
    cases t with
    | placeholder mark =>
      obtain ⟨p, hp⟩ := Option.isSome_iff_exists.mp ht
      simp [Section.add, Token.parts, hp, Part.isPlaceholder]
    | _ => cases hplaceholder

theorem IsUnfinished.addAll {s : Section} {before : Option Token} {ts tail : List Token}
    (h : s.IsUnfinished before (ts ++ tail)) (hts : ∀ t ∈ ts, t.IsRead) :
    ∃ before', (s.addAll before ts tail).IsUnfinished before' tail := by
  induction ts generalizing s before with
  | nil => exact ⟨before, h⟩
  | cons t ts ih =>
    rw [List.forall_mem_cons] at hts
    exact ih (h.add hts.1) hts.2

/-- A piece that no placeholder follows makes a section that can be printed, but for the
condition. -/
theorem wellFormed_addAll {ts tail : List Token} (hts : ∀ t ∈ ts, t.IsRead)
    (htail : tail.head?.any Token.isPlaceholder = false) :
    ({ addAll {} none ts tail with condition := none } : Section).WellFormed := by
  obtain ⟨before, h⟩ := (isUnfinished_empty (ts ++ tail)).addAll hts
  refine ⟨h.color, by simp, h.parts, h.percentCount, fun hgrouped => ?_, h.scientific⟩
  obtain hadjacent | ⟨-, hnext⟩ := h.grouped hgrouped
  · exact hadjacent
  · rw [htail] at hnext
    cases hnext

end Section

/-! ## How many sections there are -/

namespace Token

def isSeparator : Token → Bool
  | sectionSeparator => true
  | _ => false

/-- Whether a token adds a part, whatever stands before it. -/
def makesPart : Token → Bool
  | decimalPoint | percentMark | placeholder _ => true
  | literal text | escape text | quoted text => !text.isEmpty
  | _ => false

lemma not_isSeparator_of_notMem {ts : List Token} (h : .sectionSeparator ∉ ts) :
    ∀ t ∈ ts, ¬ t.isSeparator := by
  intro t ht
  cases t <;> grind [isSeparator]

end Token

def lastPiece (ts : List Token) : List Token := ts.rtakeWhile (!·.isSeparator)

lemma lastPiece_append (ts us : List Token) :
    lastPiece (ts ++ .sectionSeparator :: us) = lastPiece us := by
  have hreverse : (ts ++ .sectionSeparator :: us).reverse =
      us.reverse ++ .sectionSeparator :: ts.reverse := by simp
  have hstop : (.sectionSeparator :: ts.reverse).takeWhile (!Token.isSeparator ·) = [] := rfl
  rw [lastPiece, lastPiece, List.rtakeWhile, List.rtakeWhile, hreverse, List.takeWhile_append, hstop]
  split
  · next hall => rw [List.append_nil, (List.takeWhile_prefix _).eq_of_length hall]
  · rfl

namespace Section

/-- A section has parts if a token makes one. A comma is shown only after a literal, which makes a
part itself. -/
lemma parts_addAll_eq_nil_iff {ts : List Token} (hts : ∀ t ∈ ts, t.IsRead) {s : Section}
    {before : Option Token} (hbefore : s.parts = [] → ∀ text, before ≠ some (.literal text))
    (tail : List Token) :
    (s.addAll before ts tail).parts = [] ↔ s.parts = [] ∧ ts.any Token.makesPart = false := by
  induction ts generalizing s before with
  | nil => simp [addAll]
  | cons t ts ih =>
    rw [List.forall_mem_cons] at hts
    have hstep : (s.add before (ts ++ tail) t).parts = [] ↔
        s.parts = [] ∧ t.makesPart = false := by
      change s.parts ++ t.parts before = [] ↔ _
      rw [List.append_eq_nil_iff]
      refine and_congr_right fun hs => ?_
      cases t with
      | placeholder mark =>
        obtain ⟨p, hp⟩ := Option.isSome_iff_exists.mp hts.1
        simp [Token.parts, Token.makesPart, hp]
      | thousandSep =>
        simp only [Token.parts]
        split
        · next text => exact absurd rfl (hbefore hs text)
        · simp [Token.makesPart]
      | _ => simp [Token.parts, Token.makesPart]
    have hnext : (s.add before (ts ++ tail) t).parts = [] →
        ∀ text, some t ≠ some (.literal text) := by
      rintro hparts text ⟨⟩
      have hlength : text.length = 1 := hts.1
      have hempty : text = "" := by simpa [Token.makesPart] using (hstep.mp hparts).2
      simp [hempty] at hlength
    rw [addAll, ih hts.2 hnext, hstep, List.any_cons, Bool.or_eq_false_iff, and_assoc]

end Section

/-- The sections of pieces, without a last one that has no parts, are as many as the separators, and
one more if a token after the last of them makes a part. -/
lemma length_dropBlankLast {ts : List Token} {pieces : List (List Token)}
    (hread : ∀ us ∈ ts :: pieces, ∀ t ∈ us, t.IsRead)
    (hseparator : ∀ us ∈ ts :: pieces, .sectionSeparator ∉ us) :
    (dropBlankLast (Section.ofPieces none (ts :: pieces))).length =
      (ts ++ followingTokens pieces).countP Token.isSeparator +
        if (lastPiece (ts ++ followingTokens pieces)).any Token.makesPart then 1 else 0 := by
  have hts := Token.not_isSeparator_of_notMem (hseparator ts (List.mem_cons_self ..))
  have hcount : ts.countP Token.isSeparator = 0 := List.countP_eq_zero.mpr hts
  induction pieces generalizing ts with
  | nil =>
    have hlast : lastPiece ts = ts := by
      rw [lastPiece, List.rtakeWhile_eq_self_iff]
      simpa using hts
    have hparts : (Section.addAll {} none ts []).parts = [] ↔ _ :=
      Section.parts_addAll_eq_nil_iff (hread ts (List.mem_cons_self ..)) (by simp) []
    rw [followingTokens, List.flatMap_nil, List.append_nil, hcount, hlast]
    change (if (Section.addAll {} none ts []).parts = [] then [] else [_]).length = _
    by_cases hany : ts.any Token.makesPart <;> simp [hparts, hany]
  | cons us pieces ih =>
    rw [List.forall_mem_cons] at hread hseparator
    have hus := Token.not_isSeparator_of_notMem (hseparator.2 us (List.mem_cons_self ..))
    have hrest := ih hread.2 hseparator.2 hus (List.countP_eq_zero.mpr hus)
    have hne : Section.ofPieces none (us :: pieces) ≠ [] := List.cons_ne_nil _ _
    have hseparators : (ts ++ .sectionSeparator :: (us ++ followingTokens pieces)).countP
        Token.isSeparator = (us ++ followingTokens pieces).countP Token.isSeparator + 1 := by
      rw [List.countP_append, List.countP_cons_of_pos rfl, hcount, Nat.zero_add]
    rw [Section.ofPieces_cons, dropBlankLast_cons _ hne, List.length_cons, hrest,
      followingTokens_cons, lastPiece_append, hseparators]
    omega

namespace Format

/-- The tokens of a text make as many sections as there are separators among them, and one more if a
token after the last separator makes a part. Each section holds what texts can spell. -/
theorem isRead_of_ofTokens {ts : List Token} {f : Format} (hread : ∀ t ∈ ts, t.IsRead)
    (h : ofTokens ts = .ok f) :
    f.sections.length = ts.countP Token.isSeparator +
        (if (lastPiece ts).any Token.makesPart then 1 else 0) ∧
      ∀ s ∈ f.sections, ({ s with condition := none } : Section).WellFormed := by
  obtain ⟨us, pieces, rfl, hseparator⟩ := exists_pieces ts
  have hpieces : ∀ vs ∈ us :: pieces, ∀ t ∈ vs, t.IsRead :=
    fun vs hvs t ht => hread t (mem_append_followingTokens hvs ht)
  have hknown : ∀ vs ∈ us :: pieces, ∀ t ∈ vs, t.IsKnown :=
    fun vs hvs t ht => (hpieces vs hvs t ht).isKnown
  rw [ofTokens_pieces us pieces hknown hseparator] at h
  obtain rfl := Except.ok.inj h
  refine ⟨length_dropBlankLast hpieces hseparator, fun s hs => ?_⟩
  obtain ⟨vs, hvs, tail, htail, rfl⟩ := Section.exists_piece_of_mem (mem_of_mem_dropBlankLast hs)
  exact Section.wellFormed_addAll (hpieces vs hvs) htail

/-- What a format that is read holds. It has a section for each separator, and one more if there are
parts after the last. No placeholder and no operator is looked up in vain, so that the format decides
on every value but a decimal NaN. -/
theorem isRead_of_parse {format : String} {f : Format} (h : parse format = .ok f) :
    ∃ ts, tokenize format = .ok ts ∧
      f.sections.length = ts.countP Token.isSeparator +
        (if (lastPiece ts).any Token.makesPart then 1 else 0) ∧
      (∀ s ∈ f.sections, s.IsRead) ∧
      (∀ mark, .placeholder mark ∈ ts → (Placeholder.ofMark? mark).isSome) ∧
      ∀ v : CellValue, ¬ v.IsDecimalNan →
        (∀ s ∈ f.sections, ∀ c ∈ s.condition, ∃ accepted, c.accepts v.toValue = .ok accepted) ∧
        ∃ verdict, f.verdict v = .ok verdict := by
  have hcomparable := isComparable_of_parse h
  obtain ⟨ts, htokens, hsections⟩ := Except.bind_eq_ok_iff.mp h
  have hread := Token.isRead_of_tokenize htokens
  obtain ⟨hlength, hwellFormed⟩ := isRead_of_ofTokens hread hsections
  refine ⟨ts, htokens, hlength, fun s hs => ⟨hcomparable s hs, hwellFormed s hs⟩,
    fun mark hmark => hread _ hmark, fun v hv => ⟨fun s hs c hc => ?_, ?_⟩⟩
  · exact CellValue.exists_accepts (hcomparable s hs c hc) hv
  · exact exists_verdict hcomparable hv

/-- A comma on either side of a placeholder, an empty escape, and a doubled quote. -/
theorem isRead_of_parse_edges :
    ∃ f, parse ",#,#%\"\"\"\";[<=0.5][Red]x,E-@;\\" = .ok f ∧ f.sections.length = 2 ∧
      (∀ s ∈ f.sections, s.IsRead) ∧ ∃ verdict, f.verdict (.number (.int 5)) = .ok verdict := by
  obtain ⟨f, hf⟩ : ∃ f, parse ",#,#%\"\"\"\";[<=0.5][Red]x,E-@;\\" = .ok f := ⟨_, rfl⟩
  obtain ⟨ts, hts, hlength, hread, -, hvalues⟩ := isRead_of_parse hf
  obtain rfl := Except.ok.inj hts
  exact ⟨f, hf, hlength, hread, (hvalues (.number (.int 5)) id).2⟩

end Format

end FormatCode
