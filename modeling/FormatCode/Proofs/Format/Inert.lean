import FormatCode.Proofs.Format.Pieces
import FormatCode.Proofs.Format.Visible

/-!
# Tokens without effect

Fill and space directives, the place of a text, locales, date codes and marks of exponents change
nothing that is shown. But a comma means what the tokens next to it make of it, and any token between
them takes that meaning away: a literal before the comma, or one of the placeholders on both sides of
it. A token without effect that stands in such a gap does what deleting the comma does, and anywhere
else it does nothing.

What a list of tokens shows is first written as a list of tokens that mean the same anywhere. Where a
token is inserted can then be told from that list.

## Main definitions

* `Token.IsInert` — the tokens without effect.
* `Token.visible`, `visibleTokens` — what can be seen of a token and of some tokens.
* `Draft.visible`, `showToken` — what can be seen of a draft, and a token that changes it.
* `splitComma?` — the tokens around a gap without the comma that means something across it.

## Main statements

* `Draft.addAll_visible` — what can be seen of some tokens decides what they make.
* `visibleTokens_insert` — what can be seen of some tokens with an inert one among them.
* `Format.render_insert` — what an inert token does.
-/

namespace FormatCode

/-! ## What can be seen of tokens -/

namespace Token

def IsInert : Token → Prop
  | bare | textPlaceholder | fill _ | space _ | locale _ | scientific _ | date _ => True
  | _ => False

/-- What can be seen of a token, after the token before it and before a placeholder or not. A comma
that is shown is escaped text; one that groups stays a comma, and any other one is not seen. -/
def visible (before : Option Token) (next : Bool) : Token → List Token
  | thousandSep =>
    match before with
    | some (literal _) => [escape ","]
    | some (placeholder _) => if next then [thousandSep] else []
    | _ => []
  | bare | textPlaceholder | fill _ | space _ | locale _ | scientific _ | date _ => []
  | t => [t]

lemma visible_of_ne_thousandSep {t : Token} (h : t ≠ thousandSep) (before before' : Option Token)
    (next next' : Bool) : t.visible before next = t.visible before' next' := by
  cases t with
  | thousandSep => exact absurd rfl h
  | _ => rfl

lemma separator_notMem_visible {t : Token} (h : t ≠ sectionSeparator) (before : Option Token)
    (next : Bool) : sectionSeparator ∉ t.visible before next := by
  cases t with
  | sectionSeparator => exact absurd rfl h
  | thousandSep =>
    simp only [visible]
    split
    · simp
    · cases next <;> simp
    · simp
  | _ => simp [visible]

end Token

def visibleTokens (before : Option Token) (next : Bool) : List Token → List Token
  | [] => []
  | t :: ts =>
    t.visible before (ts.head?.elim next Token.isPlaceholder) ++ visibleTokens (some t) next ts

/-! ## What can be seen of a format -/

namespace Section

/-- A section after a token that can be seen. A comma groups. -/
def addVisible (s : Section) (t : Token) : Section :=
  s.add (some (.placeholder "0")) [.placeholder "0"] t

/-- What can be seen of a section follows from what can be seen of its tokens. -/
theorem visible_add (s : Section) (before : Option Token) (after : List Token) (t : Token) :
    (s.add before after t).visible =
      (t.visible before (after.head?.any Token.isPlaceholder)).foldl addVisible s.visible := by
  cases t with
  | thousandSep =>
    cases before with
    | none => simp [add, visible, Token.visible, Token.parts, Token.groups]
    | some u =>
      cases u with
      | placeholder mark =>
        by_cases hnext : after.head?.any Token.isPlaceholder
        · simp [add, addVisible, visible, Token.visible, Token.parts, Token.groups, Token.scales,
            Token.isPlaceholder, hnext]
        · simp [add, visible, Token.visible, Token.parts, Token.groups, hnext]
      | literal text =>
        simp [add, addVisible, visible, Token.visible, Token.parts, Token.groups, Token.scales,
          Token.isPlaceholder]
      | _ => simp [add, visible, Token.visible, Token.parts, Token.groups, Token.isPlaceholder]
  | bare | textPlaceholder | fill _ | space _ | locale _ | scientific _ | date _ =>
    simp [add, visible, Token.visible, Token.parts, Token.groups]
  | _ => rfl

end Section

def Draft.visible (d : Draft) : List Section × Section :=
  (d.finished.toList.map Section.visible, d.atHand.visible)

def showToken (sections : List Section × Section) : Token → List Section × Section
  | .sectionSeparator => (sections.1 ++ [sections.2], {})
  | t => (sections.1, sections.2.addVisible t)

lemma foldl_showToken {ts : List Token} (h : .sectionSeparator ∉ ts)
    (sections : List Section × Section) :
    ts.foldl showToken sections = (sections.1, ts.foldl Section.addVisible sections.2) := by
  induction ts generalizing sections with
  | nil => rfl
  | cons t ts ih =>
    rw [List.mem_cons, not_or] at h
    rw [List.foldl_cons, List.foldl_cons, ih h.2]
    cases t with
    | sectionSeparator => exact absurd rfl h.1
    | _ => rfl

/-- What can be seen of some tokens decides what they make of a draft. -/
theorem Draft.addAll_visible {ts : List Token} (hknown : ∀ t ∈ ts, t.IsKnown) (d : Draft)
    (before : Option Token) :
    ∃ d', d.addAll before ts = .ok d' ∧
      d'.visible = (visibleTokens before false ts).foldl showToken d.visible := by
  induction ts generalizing d before with
  | nil => exact ⟨d, rfl, rfl⟩
  | cons t ts ih =>
    rw [List.forall_mem_cons] at hknown
    have hstep : ∃ d₁, d.add before ts t = .ok d₁ ∧
        d₁.visible = (t.visible before (ts.head?.any Token.isPlaceholder)).foldl showToken
          d.visible := by
      by_cases ht : t = .sectionSeparator
      · subst ht
        refine ⟨d.finish, rfl, ?_⟩
        rw [visible, finished_finish, List.map_append]
        rfl
      · obtain ⟨d₁, hadd, hfinished, hatHand⟩ := d.add_of_isKnown before ts hknown.1 ht
        have hnot := Token.separator_notMem_visible ht before (ts.head?.any Token.isPlaceholder)
        refine ⟨d₁, hadd, ?_⟩
        rw [foldl_showToken hnot, visible, hfinished, hatHand, Section.visible_add]
        rfl
    obtain ⟨d₁, hadd, hvisible⟩ := hstep
    obtain ⟨d₂, hrun, hvisible'⟩ := ih hknown.2 d₁ (some t)
    refine ⟨d₂, ?_, ?_⟩
    · rw [addAll, hadd]
      exact hrun
    · have hnext : ts.head?.elim false Token.isPlaceholder = ts.head?.any Token.isPlaceholder := by
        cases ts <;> rfl
      rw [visibleTokens, List.foldl_append, hnext, ← hvisible, hvisible']

namespace Format

/-- The format that can be seen of some tokens. A last section without parts is not. -/
def ofVisible (ts : List Token) : Format :=
  let sections := ts.foldl showToken ([], {})
  ⟨sections.1 ++ if sections.2.parts = [] then [] else [sections.2]⟩

/-- What can be seen of some tokens decides what can be seen of their format. -/
theorem exists_ofTokens_visible {ts : List Token} (hknown : ∀ t ∈ ts, t.IsKnown) :
    ∃ f, ofTokens ts = .ok f ∧ f.visible = ofVisible (visibleTokens none false ts) := by
  obtain ⟨d, hrun, hvisible⟩ := Draft.addAll_visible hknown {} none
  refine ⟨⟨d.sections⟩, by rw [ofTokens, hrun, Except.map], ?_⟩
  change d.visible = (visibleTokens none false ts).foldl showToken ([], {}) at hvisible
  rw [ofVisible, ← hvisible, visible, Draft.sections_eq, List.map_append]
  by_cases hparts : d.atHand.parts = []
  · have hparts' : d.visible.2.parts = [] := hparts
    rw [if_pos hparts, if_pos hparts']
    rfl
  · have hparts' : d.visible.2.parts ≠ [] := hparts
    rw [if_neg hparts, if_neg hparts']
    rfl

end Format

/-! ## Inserting a token -/

namespace Token

variable {x : Token}

lemma IsInert.isKnown (h : x.IsInert) : x.IsKnown := by
  cases x <;> grind [IsInert, IsKnown]

lemma IsInert.isPlaceholder_eq (h : x.IsInert) : x.isPlaceholder = false := by
  cases x <;> grind [IsInert, isPlaceholder]

/-- An inert token is not seen. -/
lemma IsInert.visible_eq (h : x.IsInert) (before : Option Token) (next : Bool) :
    x.visible before next = [] := by
  cases x <;> grind [IsInert, visible]

/-- A comma after an inert token is not seen. -/
lemma IsInert.visible_thousandSep (h : x.IsInert) (next : Bool) :
    thousandSep.visible (some x) next = [] := by
  cases x <;> grind [IsInert, visible]

end Token

lemma visibleTokens_append (before : Option Token) (next : Bool) (us vs : List Token) :
    visibleTokens before next (us ++ vs) =
      visibleTokens before (vs.head?.elim next Token.isPlaceholder) us ++
        visibleTokens (us.getLast?.or before) next vs := by
  induction us generalizing before with
  | nil => rfl
  | cons t us ih =>
    have hlast : us.getLast?.or (some t) = (t :: us).getLast?.or before := by
      rw [List.getLast?_cons]
      cases us.getLast? <;> rfl
    rw [List.cons_append, visibleTokens, visibleTokens, ih, hlast, List.append_assoc]
    cases us <;> rfl

/-- Only a comma that comes first asks what stands before. -/
lemma visibleTokens_congr_before {before before' : Option Token}
    (h : ∀ next, Token.thousandSep.visible before next = Token.thousandSep.visible before' next)
    (next : Bool) (ts : List Token) :
    visibleTokens before next ts = visibleTokens before' next ts := by
  cases ts with
  | nil => rfl
  | cons t ts =>
    rw [visibleTokens, visibleTokens]
    congr 1
    by_cases ht : t = .thousandSep
    · rw [ht, h]
    · exact Token.visible_of_ne_thousandSep ht ..

/-- An inert token keeps what stands before it and what stands after it apart. -/
theorem visibleTokens_insert {x : Token} (hx : x.IsInert) (us vs : List Token) :
    visibleTokens none false (us ++ x :: vs) =
      visibleTokens none false us ++ visibleTokens none false vs := by
  rw [visibleTokens_append, visibleTokens, hx.visible_eq, List.nil_append]
  congr 1
  · exact congrArg (visibleTokens none · us) hx.isPlaceholder_eq
  · exact visibleTokens_congr_before hx.visible_thousandSep false vs

/-- The tokens around a gap without the comma that means something across it, if there is one: a
comma after a literal, or one between two placeholders. -/
def splitComma? (us vs : List Token) : Option (List Token × List Token) :=
  match us.reverse, vs with
  | .literal _ :: _, .thousandSep :: vs' => some (us, vs')
  | .placeholder _ :: _, .thousandSep :: .placeholder mark :: vs' =>
    some (us, .placeholder mark :: vs')
  | .thousandSep :: .placeholder mark :: us', .placeholder mark' :: vs' =>
    some ((.placeholder mark :: us').reverse, .placeholder mark' :: vs')
  | _, _ => none

/-- Only a comma at the end that comes after a placeholder asks whether a placeholder follows. -/
lemma visibleTokens_next {us : List Token}
    (h : ∀ mark rest, us.reverse ≠ .thousandSep :: .placeholder mark :: rest) (next : Bool) :
    visibleTokens none next us = visibleTokens none false us := by
  cases hus : us.reverse with
  | nil =>
    rw [List.reverse_eq_nil_iff.mp hus]
    rfl
  | cons u rest =>
    obtain rfl : us = rest.reverse ++ [u] := by
      rw [← List.reverse_reverse us, hus, List.reverse_cons]
    rw [visibleTokens_append, visibleTokens_append, List.getLast?_reverse, Option.or_none]
    congr 1
    rw [visibleTokens, visibleTokens]
    congr 1
    change u.visible rest.head? next = u.visible rest.head? false
    by_cases hu : u = .thousandSep
    · subst hu
      cases rest with
      | nil => rfl
      | cons p rest =>
        cases p with
        | placeholder mark => exact absurd hus (h mark rest)
        | _ => rfl
    · exact Token.visible_of_ne_thousandSep hu ..

/-- Where no comma means anything across a gap, the tokens on both sides of it are seen apart. -/
theorem visibleTokens_of_splitComma?_eq_none {us vs : List Token} (h : splitComma? us vs = none) :
    visibleTokens none false (us ++ vs) =
      visibleTokens none false us ++ visibleTokens none false vs := by
  have hliteral : ∀ text rest vs', us.reverse = .literal text :: rest → vs ≠ .thousandSep :: vs' := by
    rintro text rest vs' hus rfl
    simp [splitComma?, hus] at h
  have hbefore : ∀ mark rest mark' vs', us.reverse = .placeholder mark :: rest →
      vs ≠ .thousandSep :: .placeholder mark' :: vs' := by
    rintro mark rest mark' vs' hus rfl
    simp [splitComma?, hus] at h
  have hafter : ∀ mark rest mark' vs', us.reverse = .thousandSep :: .placeholder mark :: rest →
      vs ≠ .placeholder mark' :: vs' := by
    rintro mark rest mark' vs' hus rfl
    simp [splitComma?, hus] at h
  rw [visibleTokens_append, Option.or_none]
  cases vs with
  | nil => rfl
  | cons t vs =>
    congr 1
    · cases t with
      | placeholder mark =>
        exact visibleTokens_next (fun _ _ hus => hafter _ _ _ _ hus rfl) true
      | _ => rfl
    · rw [visibleTokens, visibleTokens, ← List.head?_reverse]
      congr 1
      by_cases ht : t = .thousandSep
      · subst ht
        cases hus : us.reverse with
        | nil => rfl
        | cons u rest =>
          cases u with
          | literal text => exact absurd rfl (hliteral _ _ _ hus)
          | placeholder mark =>
            cases vs with
            | nil => rfl
            | cons v vs =>
              cases v with
              | placeholder mark' => exact absurd rfl (hbefore _ _ _ _ hus)
              | _ => rfl
          | _ => rfl
      · exact Token.visible_of_ne_thousandSep ht ..

lemma visibleTokens_thousandSep_cons (ts : List Token) :
    visibleTokens none false (.thousandSep :: ts) = visibleTokens none false ts :=
  @visibleTokens_congr_before (some .thousandSep) none (fun _ => rfl) false ts

/-- A comma that means something across a gap is not seen when the tokens on both sides are seen
apart. -/
theorem visibleTokens_of_splitComma?_eq_some {us vs us' vs' : List Token}
    (h : splitComma? us vs = some (us', vs')) :
    (∀ t ∈ us' ++ vs', t ∈ us ++ vs) ∧
      visibleTokens none false us ++ visibleTokens none false vs =
        visibleTokens none false us' ++ visibleTokens none false vs' := by
  unfold splitComma? at h
  split at h
  · obtain ⟨rfl, rfl⟩ := Prod.mk.inj (Option.some.inj h)
    rw [visibleTokens_thousandSep_cons]
    exact ⟨by grind, rfl⟩
  · obtain ⟨rfl, rfl⟩ := Prod.mk.inj (Option.some.inj h)
    rw [visibleTokens_thousandSep_cons]
    exact ⟨by grind, rfl⟩
  · next mark rest mark' vs' hus =>
    obtain ⟨rfl, rfl⟩ := Prod.mk.inj (Option.some.inj h)
    obtain rfl : us = (.placeholder mark :: rest).reverse ++ [.thousandSep] := by
      rw [← List.reverse_reverse us, hus, List.reverse_cons]
    refine ⟨by grind, ?_⟩
    have hlast : ((.placeholder mark :: rest).reverse : List Token).getLast? =
        some (.placeholder mark) := by simp
    rw [visibleTokens_append, hlast]
    simp [visibleTokens, Token.visible, Token.isPlaceholder]
  · cases h

namespace Format

/-- What a token without effect does among others. Where a comma means something across the gap that
it is put in, every value is shown as if the comma were deleted; otherwise nothing changes. -/
theorem render_insert {us vs : List Token} (hknown : ∀ t ∈ us ++ vs, t.IsKnown) {x : Token}
    (hx : x.IsInert) :
    ∃ f f', ofTokens (us ++ vs) = .ok f ∧ ofTokens (us ++ x :: vs) = .ok f' ∧
      match splitComma? us vs with
      | none => ∀ v, f'.render v = f.render v
      | some (us', vs') =>
        ∃ g, ofTokens (us' ++ x :: vs') = .ok g ∧ ∀ v, f'.render v = g.render v := by
  have hinserted : ∀ {us vs : List Token}, (∀ t ∈ us ++ vs, t.IsKnown) →
      ∀ t ∈ us ++ x :: vs, t.IsKnown := by
    intro us vs h
    rw [List.forall_mem_append] at h ⊢
    exact ⟨h.1, List.forall_mem_cons.mpr ⟨hx.isKnown, h.2⟩⟩
  obtain ⟨f, hf, hvisible⟩ := exists_ofTokens_visible hknown
  obtain ⟨f', hf', hvisible'⟩ := exists_ofTokens_visible (hinserted hknown)
  rw [visibleTokens_insert hx] at hvisible'
  refine ⟨f, f', hf, hf', ?_⟩
  split
  · next hnone =>
    rw [visibleTokens_of_splitComma?_eq_none hnone] at hvisible
    exact render_congr (hvisible'.trans hvisible.symm)
  · next us' vs' hsome =>
    obtain ⟨hmem, hseen⟩ := visibleTokens_of_splitComma?_eq_some hsome
    obtain ⟨g, hg, hdeleted⟩ :=
      exists_ofTokens_visible (hinserted fun t ht => hknown t (hmem t ht))
    rw [visibleTokens_insert hx, ← hseen] at hdeleted
    exact ⟨g, hg, render_congr (hvisible'.trans hdeleted.symm)⟩

/-- The mark of an exponent between two placeholders, and the place of a text before a comma that
groups. -/
theorem render_insert_marks :
    (∃ f f', ofTokens [.placeholder "0", .placeholder "0"] = .ok f ∧
      ofTokens [.placeholder "0", .scientific (some "+"), .placeholder "0"] = .ok f' ∧
      ∀ v, f'.render v = f.render v) ∧
    ∃ f g, ofTokens [.placeholder "#", .textPlaceholder, .thousandSep, .placeholder "0"] = .ok f ∧
      ofTokens [.placeholder "#", .textPlaceholder, .placeholder "0"] = .ok g ∧
      ∀ v, f.render v = g.render v := by
  have hknown : ∀ t ∈ ([.placeholder "0"] ++ [.placeholder "0"] : List Token), t.IsKnown := by
    simp [Token.IsKnown, Placeholder.ofMark?, Placeholder.mark]
  have hknown' : ∀ t ∈ ([.placeholder "#"] ++ [.thousandSep, .placeholder "0"] : List Token),
      t.IsKnown := by
    simp [Token.IsKnown, Placeholder.ofMark?, Placeholder.mark]
  obtain ⟨f, f', hf, hf', hrender⟩ := render_insert hknown (x := .scientific (some "+")) trivial
  obtain ⟨-, g, -, hg, g', hg', hrender'⟩ := render_insert hknown' (x := .textPlaceholder) trivial
  exact ⟨⟨f, f', hf, hf', hrender⟩, g, g', hg, hg', hrender'⟩

/-- The place of a text between a comma and a placeholder keeps the comma from grouping. -/
theorem render_textPlaceholder :
    (ofTokens [.placeholder "#", .thousandSep, .placeholder "#", .placeholder "#",
        .placeholder "0"]).bind (·.render (.int 1234)) = .ok ⟨"1,234", none⟩ ∧
      (ofTokens [.placeholder "#", .thousandSep, .textPlaceholder, .placeholder "#",
        .placeholder "#", .placeholder "0"]).bind (·.render (.int 1234)) = .ok ⟨"1234", none⟩ := by
  decide +kernel

end Format

end FormatCode
