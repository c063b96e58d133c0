import FormatCode.Proofs.Format.TextShown

/-!
# Quoting and escaping text

Any text can be made part of a format, either between quotes or with each character escaped, and is
then read as that text: nothing in it ends the quote or is taken for a directive, and what stands
around it is read as before. Only quotes must not come before or after a quoted text, since two
quotes in a row stand for one. Alone, either form is a format that shows the text, whatever text it
is given.

## Main definitions

* `inQuotes`, `escaped` — a text between quotes, and a text with each character escaped.
* `escapes` — the tokens of an escaped text.

## Main statements

* `tokenize_inQuotes`, `tokenize_escaped` — what comes before another format.
* `Format.parse_inQuotes`, `Format.parse_escaped` — what stands alone.
* `tokenize_encoded` — between two formats, and alone.
-/

namespace FormatCode

def inQuotes (text : String) : String :=
  String.ofList ('\x22' :: Lexeme.double text.toList ++ ['\x22'])

def escaped (text : String) : String := String.ofList (text.toList.flatMap fun c => ['\\', c])

def escapes (text : List Char) : List Token := text.map fun c => .escape (String.ofList [c])

/-! ## Tokens -/

/-- A quoted text is read as the text before everything but a quote. -/
theorem tokenize_inQuotes {more : String} {ts : List Token} (hmore : tokenize more = .ok ts)
    (hquote : more.toList.head? ≠ some '\x22') (text : String) :
    tokenize (inQuotes text ++ more) = .ok (.quoted text :: ts) := by
  have hfits : (Lexeme.quoted text.toList true).Fits more.toList := hquote
  have hmeaning : Token.ofLexeme (.quoted text.toList true) = .ok (.quoted text) := by
    rw [Token.ofLexeme, String.ofList_toList]
  have hsource : inQuotes text = String.ofList (Lexeme.quoted text.toList true).source := rfl
  rw [hsource]
  exact tokenize_cons hfits hmeaning hmore

/-- An escaped text is read as its characters before everything. -/
theorem tokenize_escaped {more : String} {ts : List Token} (hmore : tokenize more = .ok ts)
    (text : String) : tokenize (escaped text ++ more) = .ok (escapes text.toList ++ ts) := by
  unfold escaped
  induction text.toList with
  | nil => simpa [escapes] using hmore
  | cons c cs ih =>
    have hfits : (Lexeme.escape (some c)).Fits
        (String.ofList (cs.flatMap fun c => ['\\', c]) ++ more).toList := nofun
    have hcons := tokenize_cons hfits rfl ih
    rwa [← String.append_assoc, ← String.ofList_append] at hcons

/-! ## Formats -/

lemma ne_nil_of_ne_empty {text : String} (h : text ≠ "") : Part.literals text.toList ≠ [] := by
  simpa [Part.literals] using h

namespace Section

/-- Each escape adds a literal. -/
lemma addAll_escapes (s : Section) (before : Option Token) (text : List Char) (tail : List Token) :
    s.addAll before (escapes text) tail = { s with parts := s.parts ++ Part.literals text } := by
  induction text generalizing s before with
  | nil => simp [escapes, addAll, Part.literals]
  | cons c cs ih =>
    have hadd : s.add before (escapes cs ++ tail) (.escape (String.ofList [c])) =
        { s with parts := s.parts ++ [.literal (String.ofList [c])] } := by
      simp [add, Token.parts, Token.groups, Token.scales]
    change (s.add before (escapes cs ++ tail) (.escape (String.ofList [c]))).addAll _ (escapes cs)
      tail = _
    rw [hadd, ih, List.append_assoc]
    rfl

end Section

namespace Format

/-- Tokens without a separator that make parts are read as one section. -/
lemma ofTokens_eq_singleton {ts : List Token} (hknown : ∀ t ∈ ts, t.IsKnown)
    (hseparator : .sectionSeparator ∉ ts) (hparts : (Section.addAll {} none ts []).parts ≠ []) :
    ofTokens ts = .ok ⟨[Section.addAll {} none ts []]⟩ := by
  have hpieces := ofTokens_pieces ts [] (by simpa using hknown) (by simpa using hseparator)
  rw [followingTokens, List.flatMap_nil, List.append_nil] at hpieces
  have hkept : dropBlankLast (Section.ofPieces none [ts]) = [Section.addAll {} none ts []] :=
    if_neg hparts
  rw [hpieces, hkept]

/-- A quoted text alone is one section of its characters. -/
theorem parse_inQuotes {text : String} (h : text ≠ "") :
    parse (inQuotes text) = .ok ⟨[{ parts := Part.literals text.toList }]⟩ := by
  have htokens : tokenize (inQuotes text ++ "") = .ok [.quoted text] :=
    tokenize_inQuotes rfl (by simp) text
  have hsection : Section.addAll {} none [.quoted text] [] =
    { parts := Part.literals text.toList } := rfl
  have hknown : ∀ t ∈ [Token.quoted text], t.IsKnown := by simp [Token.IsKnown]
  rw [String.append_empty] at htokens
  rw [parse, htokens, ← hsection]
  exact ofTokens_eq_singleton hknown (by simp) (ne_nil_of_ne_empty h)

/-- An escaped text alone is one section of its characters. -/
theorem parse_escaped {text : String} (h : text ≠ "") :
    parse (escaped text) = .ok ⟨[{ parts := Part.literals text.toList }]⟩ := by
  have htokens : tokenize (escaped text ++ "") = .ok (escapes text.toList ++ []) :=
    tokenize_escaped rfl text
  have hsection := Section.addAll_escapes {} none text.toList []
  rw [List.nil_append] at hsection
  rw [String.append_empty, List.append_nil] at htokens
  rw [parse, htokens, ← hsection]
  refine ofTokens_eq_singleton ?_ ?_ ?_
  · intro t ht
    obtain ⟨c, -, rfl⟩ := List.mem_map.mp ht
    trivial
  · simp [escapes]
  · rw [hsection]
    exact ne_nil_of_ne_empty h

end Format

/-- A section of the characters of a text shows the text, whatever it is given. -/
lemma render_literals {format text : String}
    (h : Format.parse format = .ok ⟨[{ parts := Part.literals text.toList }]⟩) (s : String) :
    render (.text s) (.text format) = .ok ⟨text, none⟩ := by
  have hshown : Section.showText { parts := Part.literals text.toList } = text.toList := by
    simp [Section.showText, Part.literals, List.flatMap_map, Part.text]
  have hrender := render_text_of_parse h s
  simpa [Format.textSection, hshown] using hrender

/-- Between two formats, a text is read back from its quoted and its escaped form, and so are the
formats. The quoted form needs the format before it not to end with a quote and the one after it not
to begin with one; the escaped form needs the text not to be empty. Alone, either form of a text
that is not empty is one section with a literal for each character, and shows the text in place of
every other. -/
theorem tokenize_encoded (text : String) :
    (∀ (before after : String) (ts us : List Token), Token.Closes ts before →
      tokenize after = .ok us →
        (before.toList.getLast? ≠ some '\x22' → after.toList.head? ≠ some '\x22' →
          tokenize (before ++ inQuotes text ++ after) = .ok (ts ++ [.quoted text] ++ us)) ∧
        (text ≠ "" → tokenize (before ++ escaped text ++ after) =
          .ok (ts ++ escapes text.toList ++ us))) ∧
    (text ≠ "" → ∀ encoded ∈ [inQuotes text, escaped text],
      Format.parse encoded = .ok ⟨[{ parts := Part.literals text.toList }]⟩ ∧
      ∀ s, render (.text s) (.text encoded) = .ok ⟨text, none⟩) := by
  refine ⟨fun before after ts us hbefore hafter => ⟨fun hlast hfirst => ?_, fun hne => ?_⟩, ?_⟩
  · have hquoted := tokenize_inQuotes hafter hfirst text
    have hhead : (inQuotes text ++ after).toList.head? = some '\x22' := by simp [inQuotes]
    rw [String.append_assoc, List.append_assoc]
    exact tokenize_append_of_breaks hbefore hquoted hhead (by decide) fun _ => hlast
  · have hescaped := tokenize_escaped hafter text
    have hhead : (escaped text ++ after).toList.head? = some '\\' := by
      obtain ⟨c, cs, htext⟩ := List.exists_cons_of_ne_nil (mt String.toList_eq_nil_iff.mp hne)
      simp [escaped, htext]
    rw [String.append_assoc, List.append_assoc]
    exact tokenize_append_of_breaks hbefore hescaped hhead (by decide) nofun
  · intro hne
    have hquoted := Format.parse_inQuotes hne
    have hescaped := Format.parse_escaped hne
    simpa using ⟨⟨hquoted, render_literals hquoted⟩, hescaped, render_literals hescaped⟩

/-- A text of a quote and a separator, quoted between two placeholders and escaped between two
quoted texts. -/
theorem tokenize_encoded_marks :
    tokenize ("0" ++ inQuotes "\x22;" ++ "#") =
        .ok [.placeholder "0", .quoted "\x22;", .placeholder "#"] ∧
      tokenize ("\x22a\x22" ++ escaped "\x22;" ++ "\x22b\x22") =
        .ok [.quoted "a", .escape "\x22", .escape ";", .quoted "b"] ∧
      render (.text "any") (.text (inQuotes "\x22;")) = .ok ⟨"\x22;", none⟩ ∧
      render (.text "any") (.text (escaped "\x22;")) = .ok ⟨"\x22;", none⟩ := by
  obtain ⟨hbetween, halone⟩ := tokenize_encoded "\x22;"
  have hquoted := hbetween "0" "#" [.placeholder "0"] [.placeholder "#"] rfl rfl
  have hescaped := hbetween "\x22a\x22" "\x22b\x22" [.quoted "a"] [.quoted "b"] rfl rfl
  have hshown := halone (by decide)
  exact ⟨hquoted.1 (by decide) (by decide), hescaped.2 (by decide),
    (hshown _ (by simp)).2 "any", (hshown _ (by simp)).2 "any"⟩

end FormatCode
