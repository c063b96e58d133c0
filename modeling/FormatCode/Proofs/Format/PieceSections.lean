import FormatCode.Proofs.Format.WellFormed

/-!
# The section of a piece

A format is built in one pass over all of its tokens, with one section at hand that is changed token
by token. What comes out can be said piece by piece: an attribute of a section is set by the last
token of its piece that sets it, percent signs are counted, and the parts are those of the tokens in
order. Nothing is left over from one piece to the next.

## Main definitions

* `Token.color?`, `Token.condition?`, `Token.exponentSign?` — what tokens set.
* `Section.IsOfPiece` — what a section holds by the tokens of its piece, but for the scale.

## Main statements

* `Section.addAll_lastOf` — the last token that sets an attribute decides on it.
* `Section.grouped_addAll_iff` — digits are grouped for a comma between two placeholders.
* `Format.ofTokens_splitOnP` — a format has one section for each piece.
-/

namespace FormatCode

namespace Token

/-- The color that a token sets, which may be none. -/
def color? : Token → Option (Option String)
  | color name => some name
  | _ => none

def condition? : Token → Option Condition
  | condition operator threshold => some ⟨operator, threshold⟩
  | _ => none

/-- The sign of an exponent that a token sets, which may be none. -/
def exponentSign? : Token → Option (Option String)
  | scientific sign => some sign
  | _ => none

def isPercentMark : Token → Bool
  | percentMark => true
  | _ => false

end Token

namespace Section

/-- What a section holds by the tokens of its piece: the color, condition and sign of an exponent of
the last token that sets one, the number of percent signs, whether a comma stands between two
placeholders, and the parts of all tokens in order, each after the token before it. -/
structure IsOfPiece (s : Section) (ts : List Token) : Prop where
  color : s.color = (ts.filterMap Token.color?).getLast?.getD none
  condition : s.condition = (ts.filterMap Token.condition?).getLast?
  scientific : s.scientific = (ts.filterMap Token.exponentSign?).getLast?.getD none
  percentCount : s.percentCount = ts.countP Token.isPercentMark
  grouped : s.grouped ↔ ∃ a b, [.placeholder a, .thousandSep, .placeholder b] <:+: ts
  parts : s.parts = (List.zipWith Token.parts (none :: ts.map some) ts).flatten

variable (s : Section) (before : Option Token) (ts tail : List Token)

/-- The last token of a piece that sets a field decides on it. -/
theorem addAll_lastOf {α : Type} (field : Section → α) (sets : Token → Option α)
    (hadd : ∀ s before after t, field (add s before after t) = (sets t).getD (field s)) :
    field (s.addAll before ts tail) = (ts.filterMap sets).getLast?.getD (field s) := by
  induction ts generalizing s before with
  | nil => rfl
  | cons t ts ih =>
    rw [addAll, ih, hadd]
    cases ht : sets t with
    | none => rw [List.filterMap_cons_none ht, Option.getD_none]
    | some a =>
      rw [List.filterMap_cons_some ht, List.getLast?_cons, Option.getD_some, Option.getD_some]

lemma color_addAll :
    (s.addAll before ts tail).color = (ts.filterMap Token.color?).getLast?.getD s.color :=
  addAll_lastOf s before ts tail color Token.color? (by intro s before after t; cases t <;> rfl)

lemma scientific_addAll : (s.addAll before ts tail).scientific =
    (ts.filterMap Token.exponentSign?).getLast?.getD s.scientific :=
  addAll_lastOf s before ts tail scientific Token.exponentSign?
    (by intro s before after t; cases t <;> rfl)

lemma condition_addAll_eq : (s.addAll before ts tail).condition =
    (ts.filterMap Token.condition?).getLast?.or s.condition := by
  have hlast := addAll_lastOf s before ts tail condition (fun t => t.condition?.map some)
    (by intro s before after t; cases t <;> rfl)
  have hmap : (ts.filterMap fun t => t.condition?.map some) =
      (ts.filterMap Token.condition?).map some := List.map_filterMap.symm
  rw [hlast, hmap, List.getLast?_map]
  cases (ts.filterMap Token.condition?).getLast? <;> rfl

lemma percentCount_addAll :
    (s.addAll before ts tail).percentCount = s.percentCount + ts.countP Token.isPercentMark := by
  induction ts generalizing s before with
  | nil => rfl
  | cons t ts ih =>
    rw [addAll, ih, List.countP_cons]
    cases t <;> simp [add, Token.isPercentMark, Nat.add_assoc, Nat.add_comm 1]

/-- The parts of a piece are those of its tokens, each after the token before it. -/
lemma parts_addAll : (s.addAll before ts tail).parts =
    s.parts ++ (List.zipWith Token.parts (before :: ts.map some) ts).flatten := by
  induction ts generalizing s before with
  | nil => exact (List.append_nil _).symm
  | cons t ts ih =>
    rw [addAll, ih, List.map_cons, List.zipWith_cons_cons, List.flatten_cons, ← List.append_assoc]
    rfl

/-- A token asks for grouping if it is a comma between two placeholders. -/
lemma groups_iff_isPrefix {b t : Token} (htail : tail.head?.any Token.isPlaceholder = false) :
    t.groups (some b) (ts ++ tail) ↔
      ∃ x y, [.placeholder x, .thousandSep, .placeholder y] <+: b :: t :: ts := by
  have hnext : (ts ++ tail).head?.any Token.isPlaceholder = ts.head?.any Token.isPlaceholder := by
    cases ts <;> simp [htail]
  cases t with
  | thousandSep =>
    cases b with
    | placeholder x =>
      cases ts with
      | nil => simp [Token.groups, htail]
      | cons c ts => cases c <;> simp [Token.groups, Token.isPlaceholder, List.cons_prefix_cons]
    | _ => simp [Token.groups, Token.isPlaceholder, List.cons_prefix_cons]
  | _ => simp [Token.groups, List.cons_prefix_cons]

/-- Digits are grouped for a comma between two placeholders, where the first may be the token before
the piece. -/
theorem grouped_addAll_iff (htail : tail.head?.any Token.isPlaceholder = false) :
    (s.addAll before ts tail).grouped ↔ s.grouped ∨
      ∃ x y, [.placeholder x, .thousandSep, .placeholder y] <:+: before.toList ++ ts := by
  induction ts generalizing s before with
  | nil =>
    have hnone : ∀ x y, ¬ [.placeholder x, .thousandSep, .placeholder y] <:+: before.toList := by
      intro x y hinfix
      have hlength := hinfix.length_le
      cases before <;> simp at hlength
    simp [addAll, hnone]
  | cons t ts ih =>
    have hadd : (s.add before (ts ++ tail) t).grouped ↔
        s.grouped ∨ t.groups before (ts ++ tail) := by simp [add]
    rw [addAll, ih, hadd, or_assoc]
    refine or_congr_right ?_
    cases before with
    | none =>
      have hnone : t.groups none (ts ++ tail) = false := by cases t <;> rfl
      simp [hnone]
    | some b =>
      simp only [groups_iff_isPrefix ts tail htail, Option.toList_some, List.singleton_append,
        List.infix_cons_iff, exists_or]

/-- A piece that no placeholder follows at once makes the section of the piece. -/
theorem isOfPiece_addAll (htail : tail.head?.any Token.isPlaceholder = false) :
    (addAll {} none ts tail).IsOfPiece ts where
  color := color_addAll {} none ts tail
  condition := (condition_addAll_eq {} none ts tail).trans Option.or_none
  scientific := scientific_addAll {} none ts tail
  percentCount := (percentCount_addAll {} none ts tail).trans (Nat.zero_add _)
  grouped := by simpa using grouped_addAll_iff {} none ts tail htail
  parts := parts_addAll {} none ts tail

/-- Each piece makes its own section. -/
lemma forall₂_isOfPiece (pieces : List (List Token)) :
    List.Forall₂ (fun ts s => s.IsOfPiece ts) pieces (ofPieces none pieces) := by
  induction pieces with
  | nil => exact .nil
  | cons ts pieces ih =>
    rw [ofPieces_cons]
    exact .cons (isOfPiece_addAll ts _ (head?_followingTokens pieces)) ih

end Section

/-- Tokens made of pieces are cut into these pieces at the separators. -/
lemma splitOnP_followingTokens {ts : List Token} {pieces : List (List Token)}
    (hseparator : ∀ us ∈ ts :: pieces, .sectionSeparator ∉ us) :
    (ts ++ followingTokens pieces).splitOnP Token.isSeparator = ts :: pieces := by
  have hsingle : ∀ us ∈ ts :: pieces, us.splitOnP Token.isSeparator = [us] := by
    intro us hus
    refine List.splitOnP_eq_singleton fun t ht => ?_
    simpa using Token.not_isSeparator_of_notMem (hseparator us hus) t ht
  induction pieces generalizing ts with
  | nil => rw [followingTokens, List.flatMap_nil, List.append_nil, hsingle ts (by simp)]
  | cons us pieces ih =>
    rw [List.forall_mem_cons] at hseparator hsingle
    rw [followingTokens_cons, List.splitOnP_append_cons ts _ rfl, hsingle.1,
      ih hseparator.2 hsingle.2, List.singleton_append]

/-- A format has one section for each piece between separators, without a last one that has no
parts. -/
theorem Format.ofTokens_splitOnP {ts : List Token} (hknown : ∀ t ∈ ts, t.IsKnown) :
    ∃ sections, ofTokens ts = .ok ⟨dropBlankLast sections⟩ ∧
      List.Forall₂ (fun us s => s.IsOfPiece us) (ts.splitOnP Token.isSeparator) sections := by
  obtain ⟨us, pieces, rfl, hseparator⟩ := exists_pieces ts
  have hpieces : ∀ vs ∈ us :: pieces, ∀ t ∈ vs, t.IsKnown :=
    fun vs hvs t ht => hknown t (mem_append_followingTokens hvs ht)
  refine ⟨Section.ofPieces none (us :: pieces), ofTokens_pieces us pieces hpieces hseparator, ?_⟩
  rw [splitOnP_followingTokens hseparator]
  exact Section.forall₂_isOfPiece (us :: pieces)

/-- A bracket that is repeated, commas at the edges of a piece, and a last piece without parts. -/
theorem Format.ofTokens_splitOnP_edges :
    ∃ f : Format,
      ofTokens [.color "Red", .placeholder "#", .thousandSep, .placeholder "0", .color none,
        .sectionSeparator, .thousandSep, .literal "x", .thousandSep,
        .sectionSeparator, .condition ">" (.int 5)] = .ok f ∧
      List.Forall₂ (fun us s => s.IsOfPiece us)
        [[.color "Red", .placeholder "#", .thousandSep, .placeholder "0", .color none],
          [.thousandSep, .literal "x", .thousandSep]] f.sections := by
  have hknown : ∀ t ∈ [Token.color "Red", .placeholder "#", .thousandSep, .placeholder "0",
      .color none, .sectionSeparator, .thousandSep, .literal "x", .thousandSep,
      .sectionSeparator, .condition ">" (.int 5)], t.IsKnown := by
    simp only [List.forall_mem_cons, List.not_mem_nil, false_imp_iff, implies_true, and_true,
      Token.IsKnown, true_and]
    decide
  obtain ⟨sections, hsections, hpieces⟩ := ofTokens_splitOnP hknown
  obtain _ | ⟨hfirst, _ | ⟨hsecond, _ | ⟨hthird, ⟨⟩⟩⟩⟩ := hpieces
  have hblank := hthird.parts
  change _ = [] at hblank
  refine ⟨_, hsections, ?_⟩
  rw [dropBlankLast, dropBlankLast, dropBlankLast, if_pos hblank]
  exact .cons hfirst (.cons hsecond .nil)

end FormatCode
