import FormatCode.Proofs.Format.Pieces
import FormatCode.Proofs.Token.Reading

/-!
# Joining formats

A format is closed if a separator after it is read as one: then nothing in it is left open. What
follows the separator does not change how a closed format is read, so the tokens of closed formats
that are joined by separators are those of the formats, one after the other.

## Main definitions

* `Lexeme.Breaks` — a character that continues neither a date code nor an exponent.
* `Token.Closes` — a format that is closed, with its tokens.

## Main statements

* `Lexeme.Fits.append_of_breaks`, `Lexeme.Spells.append_of_breaks` — how a lexeme and a text are cut
  does not depend on what follows a break.
* `tokenize_append_of_breaks` — the tokens of a closed format and of what follows a break.
* `tokenize_append` — the tokens of a closed format, a separator and another format.
-/

namespace FormatCode

namespace Lexeme

/-! ## Texts that break off -/

/-- A character that stands in no date or time code and is no sign. -/
def Breaks (x : Char) : Prop := (∀ p ∈ datePatterns, x ∉ p.toList) ∧ x ≠ '+' ∧ x ≠ '-'

instance (x : Char) : Decidable (Breaks x) := inferInstanceAs (Decidable (_ ∧ _))

lemma prefix_of_prefix_append_cons {α : Type} {q u more : List α} {x : α}
    (h : q <+: u ++ x :: more) (hx : x ∉ q) : q <+: u := by
  obtain hqu | ⟨v, rfl⟩ := List.prefix_or_prefix_of_prefix h (List.prefix_append u (x :: more))
  · exact hqu
  · rw [List.prefix_append_right_inj] at h
    cases v with
    | nil => simp
    | cons y v =>
      obtain rfl := (List.cons_prefix_cons.mp h).1
      simp at hx

lemma IsLongestPattern.append_of_breaks {p : String} {rest more : List Char} {x y : Char}
    (h : IsLongestPattern p (p.toList ++ (rest ++ [y]))) (hx : Breaks x) :
    IsLongestPattern p (p.toList ++ (rest ++ x :: more)) := by
  refine ⟨h.1, List.prefix_append _ _, fun q hq hprefix => h.2.2 q hq ?_⟩
  rw [← List.append_assoc] at hprefix ⊢
  exact (prefix_of_prefix_append_cons hprefix (hx.1 q hq)).trans (List.prefix_append _ _)

/-- A lexeme that fits before a text with a last character fits before the same text with another
character and more in its place, unless a quote comes at once after a closed one. -/
theorem Fits.append_of_breaks {l : Lexeme} {rest more : List Char} {x y : Char}
    (h : l.Fits (rest ++ [y])) (hx : Breaks x)
    (hquote : rest = [] → x = '\x22' → ∀ text, l ≠ quoted text true) :
    l.Fits (rest ++ x :: more) := by
  have hrest : rest ++ [y] ≠ [] := by simp
  cases l with
  | quoted text closed =>
    cases closed with
    | true =>
      cases rest with
      | nil => exact fun hc => hquote rfl (Option.some.inj hc) text rfl
      | cons d rest => exact h
    | false => exact absurd h hrest
  | bracket content closed => exact ⟨h.1, fun hclosed => absurd (h.2 hclosed) hrest⟩
  | escape char | fill char | space char => exact fun hchar => absurd (h hchar) hrest
  | date p => exact IsLongestPattern.append_of_breaks h hx
  | literal c =>
    obtain ⟨hmarks, hexponent, hpatterns⟩ := h
    refine ⟨hmarks, ?_, ?_⟩
    · rintro ⟨hc, hsign⟩
      cases rest with
      | nil =>
        obtain h | h := hsign
        · exact hx.2.1 (Option.some.inj h)
        · exact hx.2.2 (Option.some.inj h)
      | cons d rest => exact hexponent ⟨hc, hsign⟩
    · intro p hp hprefix
      rw [← List.cons_append] at hprefix
      have := prefix_of_prefix_append_cons hprefix (hx.1 p hp)
      exact hpatterns p hp (this.trans (List.prefix_append (c :: rest) [y]))
  | _ => exact h

/-- What follows a break does not change how the text before it is cut, unless both are quotes. -/
theorem Spells.append_of_breaks {ls ls' : List Lexeme} {s more : List Char} {x : Char}
    (h : Spells (ls ++ [separator]) s) (h' : Spells ls' (x :: more)) (hx : Breaks x)
    (hquote : x = '\x22' → (ls.map source).flatten.getLast? ≠ some '\x22') :
    Spells (ls ++ ls') ((ls.map source).flatten ++ x :: more) := by
  induction ls generalizing s with
  | nil => exact h'
  | cons l ls ih =>
    rw [List.cons_append] at h
    rw [List.map_cons, List.flatten_cons] at hquote ⊢
    cases h with
    | cons hfits hrest =>
      have hs := hrest.flatten_source
      rw [List.map_append, List.flatten_append] at hs
      rw [← hs] at hfits
      have hfits' : l.Fits ((ls.map source).flatten ++ x :: more) := by
        refine hfits.append_of_breaks hx fun hnil hxquote text hl => hquote hxquote ?_
        -- A closed quote at the end would be the last character before the break.
        rw [hnil, List.append_nil, hl, source, if_pos rfl]
        exact List.getLast?_concat
      have hquote' : x = '\x22' → (ls.map source).flatten.getLast? ≠ some '\x22' :=
        fun hxquote hlast => hquote hxquote (by rw [List.getLast?_append, hlast, Option.some_or])
      rw [List.append_assoc]
      exact .cons hfits' (ih hrest hquote')

/-- A lexeme that fits before a text fits before a beginning of it. -/
theorem Fits.of_append {l : Lexeme} {rest more : List Char} (h : l.Fits (rest ++ more)) :
    l.Fits rest := by
  have hhead : ∀ {c : Char}, rest.head? = some c → (rest ++ more).head? = some c := by
    intro c hc
    rw [List.head?_append, hc, Option.some_or]
  cases l with
  | quoted text closed =>
    cases closed with
    | true => exact mt hhead h
    | false => exact (List.append_eq_nil_iff.mp h).1
  | bracket content closed =>
    exact ⟨h.1, fun hclosed => (List.append_eq_nil_iff.mp (h.2 hclosed)).1⟩
  | escape char | fill char | space char =>
    exact fun hchar => (List.append_eq_nil_iff.mp (h hchar)).1
  | date p =>
    refine ⟨h.1, List.prefix_append _ _, fun q hq hprefix => h.2.2 q hq ?_⟩
    rw [← List.append_assoc]
    exact hprefix.trans (List.prefix_append _ _)
  | literal c =>
    obtain ⟨hmarks, hexponent, hpatterns⟩ := h
    refine ⟨hmarks, fun hc => hexponent (hc.imp_right (Or.imp hhead hhead)), ?_⟩
    exact fun p hp hpc => hpatterns p hp (hpc.trans (List.prefix_append (c :: rest) more))
  | _ => exact h

/-- Lexemes before others spell the text that they cover. -/
theorem Spells.of_append {ls ls' : List Lexeme} {s : List Char} (h : Spells (ls ++ ls') s) :
    Spells ls (ls.map source).flatten := by
  induction ls generalizing s with
  | nil => exact .nil
  | cons l ls ih =>
    rw [List.cons_append] at h
    cases h with
    | cons hfits hrest =>
      have hs := hrest.flatten_source
      rw [List.map_append, List.flatten_append] at hs
      rw [← hs] at hfits
      exact .cons hfits.of_append (ih hrest)

end Lexeme

namespace Token

lemma ofLexeme_eq_separator_iff {l : Lexeme} :
    ofLexeme l = .ok .sectionSeparator ↔ l = .separator := by
  refine ⟨fun h => ?_, fun h => h ▸ rfl⟩
  cases l with
  | separator => rfl
  | bracket content closed => exact (isBracket_of_ofBracket h).elim
  | _ => simp [ofLexeme] at h

/-- The tokens of a format that leaves nothing open: a separator after it is read as one. -/
def Closes (ts : List Token) (format : String) : Prop :=
  tokenize (format ++ ";") = .ok (ts ++ [.sectionSeparator])

/-- The last lexeme after a closed format is the separator, so the ones before it cover the
format. -/
lemma Closes.exists_spells {ts : List Token} {format : String} (h : Closes ts format) :
    ∃ ls, Lexeme.Spells (ls ++ [.separator]) (format.toList ++ [';']) ∧
      (ls.map Lexeme.source).flatten = format.toList ∧ Reads ls ts := by
  obtain ⟨ls, hspells, hreads⟩ := tokenize_eq_ok_iff.mp h
  have hlast := List.forall₂_drop_append ls ts _ hreads
  rw [List.forall₂_cons_right_iff] at hlast
  obtain ⟨l, _, hl, hnil, hdrop⟩ := hlast
  rw [List.forall₂_nil_right_iff] at hnil
  rw [ofLexeme_eq_separator_iff] at hl
  rw [hl, hnil] at hdrop
  rw [← List.take_append_drop ts.length ls, hdrop, String.toList_append] at hspells
  refine ⟨ls.take ts.length, hspells, ?_, List.forall₂_take_append ls ts _ hreads⟩
  have hformat := hspells.flatten_source
  rw [List.map_append, List.flatten_append] at hformat
  exact List.append_cancel_right hformat

/-- A closed format is read the same without the separator after it. -/
theorem Closes.tokenize_eq {ts : List Token} {format : String} (h : Closes ts format) :
    tokenize format = .ok ts := by
  obtain ⟨ls, hspells, hformat, hreads⟩ := h.exists_spells
  rw [tokenize_eq_ok_iff, ← hformat]
  exact ⟨ls, hspells.of_append, hreads⟩

end Token

/-- The tokens of a closed format, and of what comes after it, if that begins with a break and not
both with a quote. -/
theorem tokenize_append_of_breaks {format more : String} {ts us : List Token}
    (h : Token.Closes ts format) (hmore : tokenize more = .ok us) {x : Char}
    (hhead : more.toList.head? = some x) (hx : Lexeme.Breaks x)
    (hquote : x = '\x22' → format.toList.getLast? ≠ some '\x22') :
    tokenize (format ++ more) = .ok (ts ++ us) := by
  obtain ⟨ls, hspells, hformat, hreads⟩ := h.exists_spells
  obtain ⟨ls', hspells', hreads'⟩ := tokenize_eq_ok_iff.mp hmore
  obtain ⟨rest, hrest⟩ := List.head?_eq_some_iff.mp hhead
  refine tokenize_eq_ok_iff.mpr ⟨ls ++ ls', ?_, List.rel_append hreads hreads'⟩
  rw [← hformat] at hquote
  rw [hrest] at hspells'
  have happend := hspells.append_of_breaks hspells' hx hquote
  rwa [hformat, ← hrest, ← String.toList_append] at happend

/-- The tokens of a closed format, a separator and another format. -/
theorem tokenize_append {format more : String} {ts us : List Token} (h : Token.Closes ts format)
    (hmore : tokenize more = .ok us) :
    tokenize (format ++ ";" ++ more) = .ok (ts ++ .sectionSeparator :: us) := by
  have hseparator : tokenize (";" ++ more) = .ok (.sectionSeparator :: us) :=
    tokenize_cons (l := .separator) trivial rfl hmore
  have hhead : (";" ++ more).toList.head? = some ';' := by simp
  rw [String.append_assoc]
  exact tokenize_append_of_breaks h hseparator hhead (by decide) nofun

theorem Token.isKnown_of_ofLexeme {l : Lexeme} {t : Token} (h : ofLexeme l = .ok t) :
    t.IsKnown := by
  cases l with
  | bracket content closed =>
    have := isBracket_of_ofBracket h
    cases t <;> trivial
  | placeholder p =>
    obtain rfl := Except.ok.inj h
    exact (congrArg Option.isSome (Placeholder.ofMark?_mark p)).trans rfl
  | _ =>
    obtain rfl := Except.ok.inj h
    trivial

/-- The placeholders of a format are known. -/
theorem isKnown_of_tokenize {format : String} {ts : List Token} (h : tokenize format = .ok ts) :
    ∀ t ∈ ts, t.IsKnown := by
  intro t ht
  obtain ⟨l, -, -, hl⟩ := exists_ofLexeme_of_tokenize h ht
  exact Token.isKnown_of_ofLexeme hl

end FormatCode
