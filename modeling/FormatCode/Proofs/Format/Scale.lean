import FormatCode.Proofs.Format.WellFormed

/-!
# The section that is scaled

A comma scales its section if it stands after a placeholder and no placeholder follows it in the
whole format, so only the comma right after the last placeholder does. A format therefore scales at
most one of its sections, and that one once, however many commas and sections there are.

## Main definitions

* `EndsInComma` — whether a piece holds the last placeholder, with a comma right after it.
* `ScalesSection` — whether a format does, in a given section.

## Main statements

* `Section.scale_addAll` — what a piece does to the scale.
* `ScalesSection.unique` — at most one section is scaled.
* `Format.scale_of_ofTokens` — the scales of the sections of a format.
-/

namespace FormatCode

/-- Whether some tokens hold the last placeholder of themselves and those after them, with a comma
right after it. -/
def EndsInComma (ts tail : List Token) : Prop :=
  ∃ us mark vs, ts = us ++ .placeholder mark :: .thousandSep :: vs ∧
    (vs ++ tail).any Token.isPlaceholder = false

/-- Whether a comma stands right after the last placeholder of some tokens, and a number of
separators before it. -/
def ScalesSection (ts : List Token) (i : Nat) : Prop :=
  ∃ us mark vs, ts = us ++ .placeholder mark :: .thousandSep :: vs ∧
    vs.any Token.isPlaceholder = false ∧ us.countP Token.isSeparator = i

/-! ## A piece -/

/-- A comma that asks for scaling has the last placeholder before it. -/
lemma scales_iff {before : Option Token} {t : Token} {after : List Token} :
    t.scales before after ↔ ∃ mark, before = some (.placeholder mark) ∧ t = .thousandSep ∧
      after.any Token.isPlaceholder = false := by
  cases t with
  | thousandSep =>
    rcases before with _ | b
    · simp [Token.scales]
    · cases b <;> simp [Token.scales, Token.isPlaceholder]
  | _ => simp [Token.scales]

/-- The last placeholder with a comma after it begins at the first of some tokens or at a later
one. -/
lemma endsInComma_cons_iff {before : Option Token} {t : Token} {ts tail : List Token} :
    EndsInComma (before.toList ++ t :: ts) tail ↔
      t.scales before (ts ++ tail) ∨ EndsInComma (t :: ts) tail := by
  rw [scales_iff]
  constructor
  · rintro ⟨us, mark, vs, hsplit, hvs⟩
    rcases before with _ | b
    · exact .inr ⟨us, mark, vs, hsplit, hvs⟩
    · rcases us with _ | ⟨u, us⟩
      · obtain ⟨rfl, rfl, rfl⟩ : b = .placeholder mark ∧ t = .thousandSep ∧ ts = vs := by
          simpa using hsplit
        exact .inl ⟨mark, rfl, rfl, hvs⟩
      · exact .inr ⟨us, mark, vs, (List.cons.inj hsplit).2, hvs⟩
  · rintro (⟨mark, rfl, rfl, hafter⟩ | ⟨us, mark, vs, hsplit, hvs⟩)
    · exact ⟨[], mark, ts, rfl, hafter⟩
    · exact ⟨before.toList ++ us, mark, vs, by rw [hsplit, List.append_assoc], hvs⟩

/-- After a comma that asks for scaling there is no other one. -/
lemma not_endsInComma_of_scales {before : Option Token} {t : Token} {ts tail : List Token}
    (h : t.scales before (ts ++ tail)) : ¬ EndsInComma (t :: ts) tail := by
  obtain ⟨-, -, rfl, hafter⟩ := scales_iff.mp h
  rintro ⟨us, mark, vs, hsplit, -⟩
  rcases us with _ | ⟨u, us⟩
  · cases hsplit
  · obtain rfl := (List.cons.inj hsplit).2
    simp [Token.isPlaceholder] at hafter

/-- A piece multiplies the scale of its section once if it holds the last placeholder with a comma
after it, and leaves the scale as it is otherwise. -/
theorem Section.scale_addAll (s : Section) (before : Option Token) (ts tail : List Token) :
    (EndsInComma (before.toList ++ ts) tail →
      (s.addAll before ts tail).scale = s.scale * 1000) ∧
    (¬ EndsInComma (before.toList ++ ts) tail → (s.addAll before ts tail).scale = s.scale) := by
  induction ts generalizing s before with
  | nil =>
    refine ⟨?_, fun _ => rfl⟩
    rintro ⟨us, mark, vs, hsplit, -⟩
    have hlength := congrArg List.length hsplit
    rcases before with _ | b <;> simp at hlength
    omega
  | cons t ts ih =>
    obtain ⟨hscaled, hkept⟩ := ih (s.add before (ts ++ tail) t) (some t)
    rw [Option.toList_some, List.singleton_append] at hscaled hkept
    rw [endsInComma_cons_iff, addAll]
    by_cases hscales : t.scales before (ts ++ tail)
    · have hadd : (s.add before (ts ++ tail) t).scale = s.scale * 1000 := if_pos hscales
      rw [hkept (not_endsInComma_of_scales hscales), hadd]
      exact ⟨fun _ => rfl, fun h => absurd (.inl hscales) h⟩
    · have hadd : (s.add before (ts ++ tail) t).scale = s.scale := if_neg hscales
      rw [hadd] at hscaled hkept
      exact ⟨fun h => hscaled (h.resolve_left hscales), fun h => hkept fun hrest => h (.inr hrest)⟩

/-! ## All pieces -/

/-- A piece before others holds the last placeholder and the comma if the whole does with no
separator before them. -/
lemma endsInComma_iff_scalesSection {ts : List Token} (hts : .sectionSeparator ∉ ts)
    (pieces : List (List Token)) :
    EndsInComma ts (followingTokens pieces) ↔ ScalesSection (ts ++ followingTokens pieces) 0 := by
  have hcount : ∀ us bs, ts = us ++ bs → us.countP Token.isSeparator = 0 := by
    rintro us bs rfl
    rw [List.mem_append, not_or] at hts
    exact List.countP_eq_zero.mpr (Token.not_isSeparator_of_notMem hts.1)
  constructor
  · rintro ⟨us, mark, vs, hsplit, hvs⟩
    refine ⟨us, mark, vs ++ followingTokens pieces, ?_, hvs, hcount us _ hsplit⟩
    rw [hsplit, List.append_assoc]
    rfl
  · rintro ⟨us, mark, vs, hsplit, hvs, hus⟩
    obtain ⟨as, rfl, has⟩ | ⟨bs, rfl, hbs⟩ := List.append_eq_append_iff.mp hsplit
    · -- The placeholder stands in a later piece, so there is a separator before it.
      rcases pieces with _ | ⟨vs, pieces⟩
      · simp [followingTokens] at has
      · rw [followingTokens_cons] at has
        rcases as with _ | ⟨a, as⟩
        · cases has
        · obtain rfl := (List.cons.inj has).1
          simp [Token.isSeparator] at hus
    · rcases bs with _ | ⟨b, _ | ⟨c, bs⟩⟩
      · rcases pieces <;> cases hbs
      · rcases pieces <;> cases hbs
      · obtain ⟨rfl, rfl, rfl⟩ : .placeholder mark = b ∧ .thousandSep = c ∧
            vs = bs ++ followingTokens pieces := by simpa using hbs
        exact ⟨us, mark, bs, rfl, hvs⟩

/-- A piece before a separator does not matter to the later ones. -/
lemma scalesSection_succ_iff {ts us : List Token} (hts : .sectionSeparator ∉ ts) (i : Nat) :
    ScalesSection (ts ++ .sectionSeparator :: us) (i + 1) ↔ ScalesSection us i := by
  have hcount : ts.countP Token.isSeparator = 0 :=
    List.countP_eq_zero.mpr (Token.not_isSeparator_of_notMem hts)
  constructor
  · rintro ⟨xs, mark, vs, hsplit, hvs, hxs⟩
    obtain ⟨as, rfl, has⟩ | ⟨bs, rfl, -⟩ := List.append_eq_append_iff.mp hsplit
    · rcases as with _ | ⟨a, as⟩
      · cases has
      · obtain ⟨rfl, rfl⟩ := List.cons.inj has
        refine ⟨as, mark, vs, rfl, hvs, ?_⟩
        rw [List.countP_append, hcount, List.countP_cons_of_pos rfl] at hxs
        omega
    · rw [List.countP_append] at hcount
      omega
  · rintro ⟨xs, mark, vs, rfl, hvs, rfl⟩
    refine ⟨ts ++ .sectionSeparator :: xs, mark, vs, by simp, hvs, ?_⟩
    rw [List.countP_append, hcount, List.countP_cons_of_pos rfl, Nat.zero_add]

/-- The first piece is scaled once if it holds the last placeholder of all with a comma after it. -/
lemma Section.scale_first {ts : List Token} (hts : .sectionSeparator ∉ ts)
    (pieces : List (List Token)) {s : Section}
    (hs : addAll {} none ts (followingTokens pieces) = s) :
    (s.scale = 1 ∨ s.scale = 1000) ∧
      (s.scale = 1000 ↔ ScalesSection (ts ++ followingTokens pieces) 0) := by
  obtain ⟨hscaled, hkept⟩ := scale_addAll {} none ts (followingTokens pieces)
  rw [Option.toList_none, List.nil_append, hs] at hscaled hkept
  rw [← endsInComma_iff_scalesSection hts]
  by_cases hcomma : EndsInComma ts (followingTokens pieces)
  · have hscale : s.scale = 1000 := hscaled hcomma
    exact ⟨.inr hscale, iff_of_true hscale hcomma⟩
  · have hscale : s.scale = 1 := hkept hcomma
    exact ⟨.inl hscale, iff_of_false (by omega) hcomma⟩

/-- The section of a piece has a scale of one or a thousand, and the latter if the last placeholder
of all pieces stands in it with a comma after it. -/
theorem Section.scale_ofPieces {ts : List Token} {pieces : List (List Token)}
    (hseparator : ∀ us ∈ ts :: pieces, .sectionSeparator ∉ us) {i : Nat} {s : Section}
    (h : (ofPieces none (ts :: pieces))[i]? = some s) :
    (s.scale = 1 ∨ s.scale = 1000) ∧
      (s.scale = 1000 ↔ ScalesSection (ts ++ followingTokens pieces) i) := by
  induction pieces generalizing ts i with
  | nil =>
    rw [ofPieces_cons] at h
    cases i with
    | zero => exact scale_first (hseparator ts (List.mem_cons_self ..)) [] (Option.some.inj h)
    | succ i => cases h
  | cons us pieces ih =>
    rw [ofPieces_cons] at h
    rw [List.forall_mem_cons] at hseparator
    cases i with
    | zero => exact scale_first hseparator.1 (us :: pieces) (Option.some.inj h)
    | succ i =>
      rw [followingTokens_cons, scalesSection_succ_iff hseparator.1]
      exact ih hseparator.2 h

/-! ## The whole format -/

/-- No placeholder stands after the one before the comma that scales. -/
lemma prefix_of_isPlaceholder {us vs xs ys : List Token} {mark : String} {t : Token}
    (hsplit : us ++ .placeholder mark :: .thousandSep :: vs = xs ++ t :: ys)
    (hvs : vs.any Token.isPlaceholder = false) (ht : t.isPlaceholder) : xs <+: us := by
  obtain ⟨as, rfl, has⟩ | ⟨bs, rfl, -⟩ := List.append_eq_append_iff.mp hsplit
  · rcases as with _ | ⟨a, _ | ⟨b, as⟩⟩
    · simp
    · obtain ⟨-, rfl, -⟩ : .placeholder mark = a ∧ .thousandSep = t ∧ vs = ys := by simpa using has
      cases ht
    · obtain ⟨-, -, rfl⟩ : .placeholder mark = a ∧ .thousandSep = b ∧ vs = as ++ t :: ys := by
        simpa using has
      simp [ht] at hvs
  · exact List.prefix_append xs bs

/-- At most one section is scaled. -/
theorem ScalesSection.unique {ts : List Token} {i j : Nat} (hi : ScalesSection ts i)
    (hj : ScalesSection ts j) : i = j := by
  obtain ⟨us, mark, vs, hsplit, hvs, rfl⟩ := hi
  obtain ⟨us', mark', vs', hsplit', hvs', rfl⟩ := hj
  have hle := (prefix_of_isPlaceholder (hsplit'.symm.trans hsplit) hvs' rfl).sublist.countP_le
    (p := Token.isSeparator)
  have hge := (prefix_of_isPlaceholder (hsplit.symm.trans hsplit') hvs rfl).sublist.countP_le
    (p := Token.isSeparator)
  exact Nat.le_antisymm hle hge

/-- A section before one with a placeholder is not scaled. -/
lemma ScalesSection.lt_of_any {us vs : List Token} {i : Nat}
    (h : ScalesSection (us ++ .sectionSeparator :: vs) i) (hvs : vs.any Token.isPlaceholder) :
    us.countP Token.isSeparator < i := by
  obtain ⟨xs, mark, ys, hsplit, hys, rfl⟩ := h
  obtain ⟨t, ht, hplaceholder⟩ := List.any_eq_true.mp hvs
  obtain ⟨as, bs, rfl⟩ := List.append_of_mem ht
  rw [← List.cons_append, ← List.append_assoc] at hsplit
  have hprefix := prefix_of_isPlaceholder hsplit.symm hys hplaceholder
  have hle := hprefix.sublist.countP_le (p := Token.isSeparator)
  rw [List.countP_append, List.countP_cons_of_pos rfl] at hle
  omega

/-- The scales of a format are one or a thousand, and the latter exactly in the section that holds
the last placeholder of all, if a comma stands right after it. So at most one section is scaled, and
none before a section with a placeholder. -/
theorem Format.scale_of_ofTokens {ts : List Token} (hknown : ∀ t ∈ ts, t.IsKnown) :
    ∃ f, ofTokens ts = .ok f ∧
      (∀ (i : Nat) (s : Section), f.sections[i]? = some s →
        (s.scale = 1 ∨ s.scale = 1000) ∧ (s.scale = 1000 ↔ ScalesSection ts i)) ∧
      (∀ (i j : Nat) (s t : Section), f.sections[i]? = some s → f.sections[j]? = some t →
        s.scale = 1000 → t.scale = 1000 → i = j) ∧
      ∀ us vs, ts = us ++ .sectionSeparator :: vs → vs.any Token.isPlaceholder →
        ∀ i ≤ us.countP Token.isSeparator, ∀ s, f.sections[i]? = some s → s.scale = 1 := by
  obtain ⟨us, pieces, rfl, hseparator⟩ := exists_pieces ts
  have hpieces : ∀ vs ∈ us :: pieces, ∀ t ∈ vs, t.IsKnown :=
    fun vs hvs t ht => hknown t (mem_append_followingTokens hvs ht)
  have hscale : ∀ i s, (dropBlankLast (Section.ofPieces none (us :: pieces)))[i]? = some s →
      (s.scale = 1 ∨ s.scale = 1000) ∧
        (s.scale = 1000 ↔ ScalesSection (us ++ followingTokens pieces) i) := by
    intro i s hs
    obtain ⟨hi, rfl⟩ := List.getElem?_eq_some_iff.mp hs
    exact Section.scale_ofPieces hseparator
      (List.prefix_iff_getElem?.mp (isPrefix_dropBlankLast _) i hi)
  refine ⟨_, ofTokens_pieces us pieces hpieces hseparator, hscale, ?_, ?_⟩
  · intro i j s t hi hj hs ht
    exact ((hscale i s hi).2.mp hs).unique ((hscale j t hj).2.mp ht)
  · intro as bs hsplit hbs i hi s hs
    obtain ⟨hone | hthousand, hiff⟩ := hscale i s hs
    · exact hone
    · have hlt := ScalesSection.lt_of_any (hsplit ▸ hiff.mp hthousand) hbs
      omega

/-- A comma after the placeholder of a first section, two after the last placeholder, and one after
a literal: only the second section is scaled. -/
theorem Format.scale_of_ofTokens_commas :
    ∃ f, ofTokens [.placeholder "0", .thousandSep, .sectionSeparator, .placeholder "#",
        .thousandSep, .thousandSep, .sectionSeparator, .literal "x", .thousandSep] = .ok f ∧
      (∃ s, f.sections[1]? = some s ∧ s.scale = 1000) ∧
      ∀ (i : Nat) (s : Section), i ≠ 1 → f.sections[i]? = some s → s.scale = 1 := by
  have hknown : ∀ t ∈ [Token.placeholder "0", .thousandSep, .sectionSeparator, .placeholder "#",
      .thousandSep, .thousandSep, .sectionSeparator, .literal "x", .thousandSep], t.IsKnown := by
    simp only [List.forall_mem_cons, List.not_mem_nil, false_imp_iff, implies_true, and_true,
      Token.IsKnown, true_and]
    decide
  have hsecond : ScalesSection [.placeholder "0", .thousandSep, .sectionSeparator, .placeholder "#",
      .thousandSep, .thousandSep, .sectionSeparator, .literal "x", .thousandSep] 1 :=
    ⟨[.placeholder "0", .thousandSep, .sectionSeparator], "#", _, rfl, rfl, rfl⟩
  obtain ⟨f, hf, hscale, -, -⟩ := scale_of_ofTokens hknown
  obtain ⟨s, hs⟩ : ∃ s, f.sections[1]? = some s := by
    obtain rfl := Except.ok.inj hf
    exact ⟨_, rfl⟩
  refine ⟨f, hf, ⟨s, hs, (hscale 1 s hs).2.mpr hsecond⟩, fun i t hi ht => ?_⟩
  obtain ⟨hone | hthousand, hiff⟩ := hscale i t ht
  · exact hone
  · exact absurd ((hiff.mp hthousand).unique hsecond) hi

end FormatCode
