import FormatCode.Token.Lexeme
import Mathlib.Data.List.TakeWhile

/-!
# The grammar of lexemes

Which lexeme stands at the beginning of a text is decided by its own text and by what follows: a
closed quote is not followed by another quote, an unfinished lexeme is followed by nothing, a date
code is the longest that the text begins with, and a literal begins nothing else. These conditions
determine how a text is cut, and the scanner cuts it so.

## Main definitions

* `Lexeme.Fits` — whether a lexeme may stand before a text.
* `Lexeme.Spells` — whether lexemes, each fitting before the next, spell a text.

## Main statements

* `Lexeme.first_eq` — the lexeme that fits is the first of the text.
* `Lexeme.scan_eq_iff` — the scanner finds the lexemes that spell the text, and no others do.
-/

namespace FormatCode

namespace Lexeme

/-! ## Date and time codes -/

/-- No date or time code begins with an earlier one. -/
lemma pairwise_datePatterns :
    datePatterns.Pairwise fun p q => ¬ p.toList <+: q.toList := by decide

/-- A date or time code that a text begins with, none of those that it begins with being longer. -/
def IsLongestPattern (pattern : String) (s : List Char) : Prop :=
  pattern ∈ datePatterns ∧ pattern.toList <+: s ∧
    ∀ q ∈ datePatterns, q.toList <+: s → q.toList.length ≤ pattern.toList.length

theorem isLongestPattern_of_datePattern? {s : List Char} {p : String}
    (h : datePattern? s = some p) : IsLongestPattern p s := by
  obtain ⟨hp, before, after, hsplit, hbefore⟩ := List.find?_eq_some_iff_append.mp h
  rw [List.isPrefixOf_iff_prefix] at hp
  have horder := pairwise_datePatterns
  rw [hsplit, List.pairwise_append] at horder
  refine ⟨by simp [hsplit], hp, fun q hq hqs => ?_⟩
  rw [hsplit, List.mem_append, List.mem_cons] at hq
  obtain hq | rfl | hq := hq
  · have hnot := hbefore q hq
    rw [List.isPrefixOf_iff_prefix.mpr hqs] at hnot
    contradiction
  · exact Nat.le_refl _
  · -- A longer code further back would begin with this one.
    have hnot := List.rel_of_pairwise_cons horder.2.1 hq
    by_contra hlong
    exact hnot (List.prefix_of_prefix_length_le hp hqs (by omega))

theorem datePattern?_eq_some_iff {s : List Char} {p : String} :
    datePattern? s = some p ↔ IsLongestPattern p s := by
  refine ⟨isLongestPattern_of_datePattern?, fun ⟨hp, hps, hlongest⟩ => ?_⟩
  cases hfound : datePattern? s with
  | none =>
    have := List.find?_eq_none.mp hfound p hp
    simp [hps] at this
  | some q =>
    obtain ⟨hq, hqs, hlongest'⟩ := isLongestPattern_of_datePattern? hfound
    have hlength := Nat.le_antisymm (hlongest q hq hqs) (hlongest' p hp hps)
    have hprefix := List.prefix_of_prefix_length_le hqs hps (Nat.le_of_eq hlength)
    have heq := hprefix.eq_of_length hlength
    rw [String.toList_inj.mp heq]

theorem datePattern?_eq_none_iff {s : List Char} :
    datePattern? s = none ↔ ∀ p ∈ datePatterns, ¬ p.toList <+: s := by
  simp [datePattern?]

/-! ## Lexemes that fit -/

/-- The characters that begin a lexeme of their own whatever follows. -/
def marks : List Char := [';', '\x22', '\\', '*', '_', '[', '0', '#', '?', '.', ',', '%', '@']

def BeginsExponent (c : Char) (rest : List Char) : Prop :=
  (c = 'E' ∨ c = 'e') ∧ (rest.head? = some '+' ∨ rest.head? = some '-')

/-- Whether a lexeme may stand before a text: the text does not change how it is read. -/
def Fits : Lexeme → (rest : List Char) → Prop
  | quoted _ closed, rest => if closed then rest.head? ≠ some '\x22' else rest = []
  | escape char, rest => char = none → rest = []
  | fill char, rest => char = none → rest = []
  | space char, rest => char = none → rest = []
  | bracket content closed, rest => ']' ∉ content ∧ (closed = false → rest = [])
  | scientific mark sign, _ => BeginsExponent mark [sign]
  | date pattern, rest => IsLongestPattern pattern (pattern.toList ++ rest)
  | literal c, rest =>
    c ∉ marks ∧ ¬ BeginsExponent c rest ∧ ∀ p ∈ datePatterns, ¬ p.toList <+: c :: rest
  | _, _ => True

/-- A date or time code begins with none of the marks. -/
lemma head_datePattern {p : String} (hp : p ∈ datePatterns) :
    ∃ c tail, p.toList = c :: tail ∧ c ∉ marks ∧ c ≠ 'E' ∧ c ≠ 'e' := by
  have h : ∀ p ∈ datePatterns, p.toList.head?.any fun c => c ∉ marks ∧ c ≠ 'E' ∧ c ≠ 'e' := by
    decide
  obtain ⟨c, hc, hmarks⟩ := (Option.any_eq_true _ _).mp (h p hp)
  obtain ⟨tail, htail⟩ := List.head?_eq_some_iff.mp hc
  exact ⟨c, tail, htail, of_decide_eq_true hmarks⟩

lemma source_ne_nil {l : Lexeme} {rest : List Char} (h : l.Fits rest) : l.source ≠ [] := by
  cases l with
  | date p =>
    obtain ⟨c, tail, hp, -⟩ := head_datePattern h.1
    simp [source, hp]
  | _ => simp [source]

/-! ## The first lexeme -/

lemma readQuoted_close {rest : List Char} (h : rest.head? ≠ some '\x22') :
    readQuoted ('\x22' :: rest) = ([], true) := by
  cases rest with
  | nil => rfl
  | cons c tail => simp_all [readQuoted]

lemma readQuoted_cons {c : Char} (h : c ≠ '\x22') (rest : List Char) :
    readQuoted (c :: rest) = (c :: (readQuoted rest).1, (readQuoted rest).2) := by
  simp_all [readQuoted]

lemma readQuoted_double (text : List Char) {rest : List Char} (h : rest.head? ≠ some '\x22') :
    readQuoted (double text ++ '\x22' :: rest) = (text, true) := by
  induction text with
  | nil => exact readQuoted_close h
  | cons c text ih =>
    by_cases hc : c = '\x22'
    · simp [double, hc, readQuoted, ih]
    · simp [double, hc, readQuoted_cons, ih]

lemma readQuoted_double_nil (text : List Char) : readQuoted (double text) = (text, false) := by
  induction text with
  | nil => rfl
  | cons c text ih =>
    by_cases hc : c = '\x22'
    · simp [double, hc, readQuoted, ih]
    · simp [double, hc, readQuoted_cons, ih]

/-- What is read as a quote is the doubled text, up to a closing quote that no quote follows or to
the end. -/
lemma exists_eq_quoted (s : List Char) :
    ∃ rest, '\x22' :: s = (quoted (readQuoted s).1 (readQuoted s).2).source ++ rest ∧
      (quoted (readQuoted s).1 (readQuoted s).2).Fits rest := by
  fun_induction readQuoted s with
  | case1 => exact ⟨[], by simp [source, double], by simp [Fits]⟩
  | case2 s ih =>
    obtain ⟨rest, hs, hfits⟩ := ih
    exact ⟨rest, by simpa [source, double] using hs, hfits⟩
  | case3 s hs =>
    refine ⟨s, by simp [source, double], ?_⟩
    intro h
    obtain ⟨tail, rfl⟩ := List.head?_eq_some_iff.mp h
    exact hs tail rfl
  | case4 c s _ hc ih =>
    obtain ⟨rest, hs, hfits⟩ := ih
    exact ⟨rest, by simpa [source, double, if_neg hc] using hs, hfits⟩

/-- What is read as a bracket reaches to the first closing mark or to the end. -/
lemma exists_eq_bracket (s : List Char) :
    ∃ rest, '[' :: s = (bracket (s.takeWhile (· != ']')) (s.contains ']')).source ++ rest ∧
      (bracket (s.takeWhile (· != ']')) (s.contains ']')).Fits rest := by
  induction s with
  | nil => exact ⟨[], by simp [source], by simp [Fits]⟩
  | cons c s ih =>
    obtain ⟨rest, hs, hfits⟩ := ih
    by_cases hc : c = ']'
    · exact ⟨s, by simp [source, hc], by simp [Fits, hc]⟩
    · refine ⟨rest, ?_, ?_⟩
      · simpa [source, hc, Ne.symm hc] using hs
      · simpa [Fits, hc, Ne.symm hc] using hfits

lemma exists_eq_firstWord {c : Char} {rest : List Char} (hmarks : c ∉ marks)
    (hexponent : ¬ BeginsExponent c rest) :
    ∃ rest', c :: rest = (firstWord c rest).source ++ rest' ∧ (firstWord c rest).Fits rest' := by
  unfold firstWord
  split
  · next p hp =>
    have hlongest := datePattern?_eq_some_iff.mp hp
    obtain ⟨rest', hrest⟩ := hlongest.2.1
    exact ⟨rest', hrest.symm, by rwa [Fits, hrest]⟩
  · next hnone =>
    exact ⟨rest, rfl, hmarks, hexponent, datePattern?_eq_none_iff.mp hnone⟩

lemma exists_eq_firstExponent {c : Char} {rest : List Char} (hc : c = 'E' ∨ c = 'e') :
    ∃ rest', c :: rest = (firstExponent c rest).source ++ rest' ∧
      (firstExponent c rest).Fits rest' := by
  unfold firstExponent
  split
  · next tail => exact ⟨tail, rfl, hc, .inl rfl⟩
  · next tail => exact ⟨tail, rfl, hc, .inr rfl⟩
  · next hplus hminus =>
    refine exists_eq_firstWord ?_ ?_
    · rcases hc with rfl | rfl <;> decide
    · rintro ⟨-, hsign | hsign⟩ <;> obtain ⟨tail, rfl⟩ := List.head?_eq_some_iff.mp hsign
      · exact hplus tail rfl
      · exact hminus tail rfl

/-- The first lexeme of a text covers its beginning and fits before the rest. -/
theorem exists_eq_first (c : Char) (rest : List Char) :
    ∃ rest', c :: rest = (first c rest).source ++ rest' ∧ (first c rest).Fits rest' := by
  unfold first
  split
  case h_2 => exact exists_eq_quoted rest
  case h_6 => exact exists_eq_bracket rest
  case h_13 => exact exists_eq_firstExponent (.inl rfl)
  case h_14 => exact exists_eq_firstExponent (.inr rfl)
  case h_16 =>
    refine exists_eq_firstWord ?_ ?_
    · simp_all [marks]
    · simp_all [BeginsExponent]
  case h_3 | h_4 | h_5 =>
    cases rest with
    | nil => exact ⟨[], rfl, fun _ => rfl⟩
    | cons d tail => exact ⟨tail, rfl, fun h => by simp at h⟩
  all_goals exact ⟨rest, rfl, trivial⟩

lemma first_of_notMem_marks {c : Char} (h : c ∉ marks) (rest : List Char) :
    first c rest = if c = 'E' ∨ c = 'e' then firstExponent c rest else firstWord c rest := by
  unfold first
  split <;> simp_all [marks]

lemma firstExponent_of_not {c : Char} {rest : List Char} (hc : c = 'E' ∨ c = 'e')
    (h : ¬ BeginsExponent c rest) : firstExponent c rest = firstWord c rest := by
  unfold firstExponent
  split
  · exact absurd ⟨hc, .inl rfl⟩ h
  · exact absurd ⟨hc, .inr rfl⟩ h
  · rfl

/-- A text that begins with a lexeme that fits before the rest has that lexeme first. -/
theorem first_eq {l : Lexeme} {c : Char} {tail rest : List Char} (h : l.Fits rest)
    (hs : c :: tail = l.source ++ rest) : first c tail = l := by
  cases l with
  | quoted text closed =>
    cases closed with
    | true =>
      simp only [source, if_true, List.cons_append, List.append_assoc, List.nil_append,
        List.cons.injEq] at hs
      obtain ⟨rfl, rfl⟩ := hs
      simp [first, readQuoted_double text h]
    | false =>
      obtain rfl : rest = [] := h
      simp only [source, Bool.false_eq_true, if_false, List.append_nil, List.cons.injEq] at hs
      obtain ⟨rfl, rfl⟩ := hs
      simp [first, readQuoted_double_nil]
  | bracket content closed =>
    obtain ⟨hcontent, hrest⟩ := h
    simp only [source, List.cons_append, List.cons.injEq] at hs
    obtain ⟨rfl, rfl⟩ := hs
    have htake : content.takeWhile (· != ']') = content := by
      rw [List.takeWhile_eq_self_iff]
      exact fun c hc => by simpa using ne_of_mem_of_not_mem hc hcontent
    cases closed with
    | true => simp [first, List.takeWhile_append, htake]
    | false => simp [first, hrest rfl, htake, hcontent]
  | escape char | fill char | space char =>
    simp only [source, List.cons_append, List.cons.injEq] at hs
    obtain ⟨rfl, rfl⟩ := hs
    cases char with
    | none => simp [first, h rfl]
    | some d => rfl
  | placeholder p =>
    simp only [source, List.cons_append, List.nil_append, List.cons.injEq] at hs
    obtain ⟨rfl, rfl⟩ := hs
    cases p <;> rfl
  | scientific mark sign =>
    simp only [source, List.cons_append, List.nil_append, List.cons.injEq] at hs
    obtain ⟨rfl, rfl⟩ := hs
    obtain ⟨rfl | rfl, hsign | hsign⟩ := h <;> obtain rfl := Option.some.inj hsign <;> rfl
  | date pattern =>
    obtain ⟨d, patternTail, hpattern, hmarks, hE, he⟩ := head_datePattern h.1
    have hfound := datePattern?_eq_some_iff.mpr h
    rw [source] at hs
    rw [← hs] at hfound
    obtain rfl : c = d := by simp_all
    rw [first_of_notMem_marks hmarks, if_neg (by simp [hE, he]), firstWord, hfound]
  | literal d =>
    obtain ⟨hmarks, hexponent, hpatterns⟩ := h
    simp only [source, List.cons_append, List.nil_append, List.cons.injEq] at hs
    obtain ⟨rfl, rfl⟩ := hs
    have hword : firstWord c tail = literal c := by
      rw [firstWord, datePattern?_eq_none_iff.mpr hpatterns]
    rw [first_of_notMem_marks hmarks, hword, ite_eq_right_iff]
    exact fun hc => (firstExponent_of_not hc hexponent).trans hword
  | separator | point | comma | percent | atSign =>
    simp only [source, List.cons_append, List.nil_append, List.cons.injEq] at hs
    obtain ⟨rfl, rfl⟩ := hs
    rfl

/-! ## The lexemes of a text -/

/-- Lexemes that spell a text: each fits before what the next ones cover. -/
inductive Spells : List Lexeme → List Char → Prop
  | nil : Spells [] []
  | cons {l : Lexeme} {ls : List Lexeme} {rest : List Char} :
      l.Fits rest → Spells ls rest → Spells (l :: ls) (l.source ++ rest)

/-- A lexeme that fits is the first of a text, and the others are those of the rest. -/
theorem scan_append_of_fits {l : Lexeme} {rest : List Char} (h : l.Fits rest) :
    scan (l.source ++ rest) = l :: scan rest := by
  obtain ⟨c, tail, hsource⟩ := List.exists_cons_of_ne_nil (source_ne_nil h)
  have hfirst : first c (tail ++ rest) = l := first_eq h (by simp [hsource])
  rw [hsource, List.cons_append, scan_cons, hfirst, hsource]
  simp

theorem Spells.scan_eq {ls : List Lexeme} {s : List Char} (h : Spells ls s) : scan s = ls := by
  induction h with
  | nil => rfl
  | cons hfits _ ih => rw [scan_append_of_fits hfits, ih]

theorem Spells.flatten_source {ls : List Lexeme} {s : List Char} (h : Spells ls s) :
    (ls.map source).flatten = s := by
  induction h with
  | nil => rfl
  | cons _ _ ih => rw [List.map_cons, List.flatten_cons, ih]

lemma Spells.exists_fits {ls : List Lexeme} {s : List Char} (h : Spells ls s) {l : Lexeme}
    (hl : l ∈ ls) : ∃ rest, l.Fits rest := by
  induction h with
  | nil => cases hl
  | @cons _ _ rest hfits _ ih =>
    obtain rfl | hl := List.mem_cons.mp hl
    · exact ⟨rest, hfits⟩
    · exact ih hl

/-- The lexemes of a text spell it. -/
theorem spells_scan (s : List Char) : Spells (scan s) s := by
  match s with
  | [] => exact .nil
  | c :: s =>
    obtain ⟨rest, hs, hfits⟩ := exists_eq_first c s
    have hlength : rest.length < (c :: s).length := by
      have := List.length_pos_iff.mpr (source_ne_nil hfits)
      rw [hs, List.length_append]
      omega
    rw [hs, scan_append_of_fits hfits]
    exact .cons hfits (spells_scan rest)
termination_by s.length
decreasing_by exact hlength

/-- The scanner finds the lexemes that spell a text, and no others spell it. -/
theorem scan_eq_iff {s : List Char} {ls : List Lexeme} : scan s = ls ↔ Spells ls s :=
  ⟨fun h => h ▸ spells_scan s, Spells.scan_eq⟩

end Lexeme

end FormatCode
