import FormatCode.Proofs.Lexeme.Grammar
import FormatCode.Token.Basic
import Mathlib.Data.List.Forall2

/-!
# Tokens and lexemes

The tokens of a format are what its lexemes mean, one by one. So a format has tokens if each lexeme
means something, which only a bracket can fail to do.

## Main definitions

* `Token.Reads` — lexemes and what they mean.
* `Token.IsBracket` — what a bracket may mean.

## Main statements

* `tokenize_eq_ok_iff` — the tokens of a format are those of the lexemes that spell it.
* `tokenize_cons` — the tokens of a format with a lexeme before it.
-/

namespace FormatCode

/-- Mapping a function that may fail succeeds if it succeeds on each item. -/
theorem mapM_eq_ok_iff {α β ε : Type} (f : α → Except ε β) {as : List α} {bs : List β} :
    as.mapM f = .ok bs ↔ List.Forall₂ (fun a b => f a = .ok b) as bs := by
  induction as generalizing bs with
  | nil => cases bs <;> simp [pure, Except.pure]
  | cons a as ih =>
    rw [List.mapM_cons]
    cases bs with
    | nil => cases f a <;> cases as.mapM f <;> simp [bind, Except.bind, pure, Except.pure]
    | cons b bs =>
      rw [List.forall₂_cons, ← ih]
      cases f a <;> cases as.mapM f <;> simp [bind, Except.bind, pure, Except.pure]

/-- Mapping a function that may fail fails at the first item on which the function does. -/
theorem mapM_eq_error_iff {α β ε : Type} (f : α → Except ε β) {as : List α} {e : ε} :
    as.mapM f = .error e ↔ ∃ before a after, as = before ++ a :: after ∧
      (∀ b ∈ before, ∃ y, f b = .ok y) ∧ f a = .error e := by
  induction as with
  | nil => simp [pure, Except.pure]
  | cons a as ih =>
    rw [List.mapM_cons]
    cases ha : f a with
    | error e' =>
      constructor
      · intro h
        obtain rfl : e' = e := by simpa [bind, Except.bind] using h
        exact ⟨[], a, as, rfl, by simp, ha⟩
      · rintro ⟨before, b, after, has, hbefore, hb⟩
        cases before with
        | nil =>
          obtain ⟨rfl, rfl⟩ := List.cons.inj has
          obtain rfl := Except.error.inj (ha.symm.trans hb)
          rfl
        | cons b' before =>
          obtain ⟨rfl, -⟩ := List.cons.inj has
          obtain ⟨y, hy⟩ := hbefore a (by simp)
          cases ha.symm.trans hy
    | ok y =>
      have hrest : ((.ok y : Except ε β) >>= fun y => do
          let ys ← as.mapM f
          pure (y :: ys)) = .error e ↔ as.mapM f = .error e := by
        cases as.mapM f <;> simp [bind, Except.bind, pure, Except.pure]
      rw [hrest, ih]
      constructor
      · rintro ⟨before, b, after, rfl, hbefore, hb⟩
        exact ⟨a :: before, b, after, rfl, List.forall_mem_cons.mpr ⟨⟨y, ha⟩, hbefore⟩, hb⟩
      · rintro ⟨before, b, after, has, hbefore, hb⟩
        cases before with
        | nil =>
          obtain ⟨rfl, -⟩ := List.cons.inj has
          cases ha.symm.trans hb
        | cons b' before =>
          obtain ⟨rfl, rfl⟩ := List.cons.inj has
          exact ⟨before, b, after, rfl, (List.forall_mem_cons.mp hbefore).2, hb⟩

namespace Token

abbrev Reads : List Lexeme → List Token → Prop :=
  List.Forall₂ fun l t => ofLexeme l = .ok t

lemma Reads.exists_ofLexeme {ls : List Lexeme} {ts : List Token} (h : Reads ls ts) {t : Token}
    (ht : t ∈ ts) : ∃ l ∈ ls, ofLexeme l = .ok t := by
  induction h with
  | nil => cases ht
  | @cons l _ _ _ hl _ ih =>
    obtain rfl | ht := List.mem_cons.mp ht
    · exact ⟨l, List.mem_cons_self .., hl⟩
    · obtain ⟨l', hmem, hl'⟩ := ih ht
      exact ⟨l', List.mem_cons_of_mem _ hmem, hl'⟩

def IsBracket : Token → Prop
  | color _ | condition _ _ | locale _ => True
  | _ => False

theorem isBracket_of_ofBracket {content : List Char} {t : Token} (h : ofBracket content = .ok t) :
    t.IsBracket := by
  unfold ofBracket at h
  split at h
  · next c threshold _ =>
    cases hv : threshold.value with
    | error e => simp [hv, Except.map] at h
    | ok v =>
      obtain rfl : condition c.symbol v = t := by simpa [hv, Except.map] using h
      trivial
  · split at h <;> (obtain rfl := Except.ok.inj h; trivial)

end Token

/-- The tokens of a format are what the lexemes that spell it mean. -/
theorem tokenize_eq_ok_iff {format : String} {ts : List Token} :
    tokenize format = .ok ts ↔ ∃ ls, Lexeme.Spells ls format.toList ∧ Token.Reads ls ts := by
  rw [tokenize, mapM_eq_ok_iff]
  constructor
  · exact fun h => ⟨_, Lexeme.spells_scan _, h⟩
  · rintro ⟨ls, hspells, hreads⟩
    rwa [hspells.scan_eq]

/-- A lexeme that fits before a format is read before the tokens of the format. -/
theorem tokenize_cons {l : Lexeme} {more : String} {t : Token} {ts : List Token}
    (hfits : l.Fits more.toList) (hl : Token.ofLexeme l = .ok t) (hmore : tokenize more = .ok ts) :
    tokenize (String.ofList l.source ++ more) = .ok (t :: ts) := by
  obtain ⟨ls, hspells, hreads⟩ := tokenize_eq_ok_iff.mp hmore
  refine tokenize_eq_ok_iff.mpr ⟨l :: ls, ?_, .cons hl hreads⟩
  rw [String.toList_append, String.toList_ofList]
  exact .cons hfits hspells

/-- Each token of a format is what some lexeme means. -/
lemma exists_ofLexeme_of_tokenize {format : String} {ts : List Token}
    (h : tokenize format = .ok ts) {t : Token} (ht : t ∈ ts) :
    ∃ l rest, l.Fits rest ∧ Token.ofLexeme l = .ok t := by
  obtain ⟨ls, hspells, hreads⟩ := tokenize_eq_ok_iff.mp h
  obtain ⟨l, hmem, hl⟩ := hreads.exists_ofLexeme ht
  obtain ⟨rest, hfits⟩ := hspells.exists_fits hmem
  exact ⟨l, rest, hfits, hl⟩

end FormatCode
