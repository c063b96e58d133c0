import FormatCode.Format.Layout
import FormatCode.Proofs.Numeral.FixedPoint

/-!
# What is laid out

Placeholders and percent signs show the digits of a number in order, whatever stands between them.
Before the point all digits are shown, perhaps after some zeros; there the digits may be any
characters that are told apart from the commas, spaces and percent signs between them. After it as
many are shown as there are placeholders, the last of them rounded without a carry, perhaps before
some zeros.

## Main definitions

* `withoutMarks` — a text without commas, spaces and percent signs.
* `Unmarked` — a text in which there are none.
* `Walk.Shows` — what holds while the digits before the point are laid out.
* `roundedFraction` — the digits after the point that are shown.

## Main statements

* `Walk.Shows.step`, `Walk.shows_steps` — what one part and all parts keep.
* `withoutMarks_layoutWhole`, `withoutMarks_layoutFraction` — the digits that are shown.
* `withoutCarry_fixedPoint` — the digits that are shown are worth the rounded number.
-/

namespace FormatCode

def withoutMarks (text : List Char) : List Char := text.filter fun c => c ∉ [',', ' ', '%']

def Unmarked (text : List Char) : Prop := ∀ c ∈ text, c ∉ [',', ' ', '%']

section withoutMarks

variable {ds : List Char} {c : Char}

@[simp] lemma withoutMarks_nil : withoutMarks [] = [] := rfl

@[simp] lemma withoutMarks_append (s t : List Char) :
    withoutMarks (s ++ t) = withoutMarks s ++ withoutMarks t :=
  List.filter_append ..

lemma notMem_marks_of_isDigit (h : c.isDigit) : c ∉ [',', ' ', '%'] := by
  intro hmem
  simp only [List.mem_cons, List.not_mem_nil, or_false] at hmem
  obtain rfl | rfl | rfl := hmem <;> exact absurd h (by decide)

lemma unmarked_of_plain (h : Numeral.Plain ds) : Unmarked ds :=
  fun c hc => notMem_marks_of_isDigit (h c hc)

/-- What has no marks is kept. -/
lemma Unmarked.withoutMarks_eq (h : Unmarked ds) : withoutMarks ds = ds := by
  rw [withoutMarks, List.filter_eq_self]
  exact fun c hc => decide_eq_true (h c hc)

lemma withoutMarks_cons (h : c ∉ [',', ' ', '%']) (text : List Char) :
    withoutMarks (c :: text) = c :: withoutMarks text :=
  List.filter_cons_of_pos (decide_eq_true h)

/-- Without marks there are no percent signs. -/
lemma Unmarked.count_percent (h : Unmarked ds) : ds.count '%' = 0 := by
  rw [List.count_eq_zero]
  intro hmem
  exact absurd (h _ hmem) (by decide)

lemma count_percent_cons (h : c ∉ [',', ' ', '%']) (text : List Char) :
    (c :: text).count '%' = text.count '%' := by
  refine List.count_cons_of_ne ?_
  rintro rfl
  exact absurd h (by decide)

/-- A character of a text is a mark or is left when the marks are taken out. -/
lemma mem_marks_or_mem_withoutMarks {text : List Char} (h : c ∈ text) :
    c ∈ [',', ' ', '%'] ∨ c ∈ withoutMarks text := by
  by_cases hmark : c ∈ [',', ' ', '%']
  · exact .inl hmark
  · exact .inr (List.mem_filter.mpr ⟨h, decide_eq_true hmark⟩)

end withoutMarks

def Part.IsPlain : Part → Prop
  | placeholder _ | percent => True
  | _ => False

/-! ## Before the point -/

namespace Walk

variable {grouped : Bool} {w : Walk}

lemma pending_emit (w : Walk) (c : Char) : (w.emit grouped c).pending = w.pending := rfl

lemma withoutMarks_emit {c : Char} (h : c ∉ [',', ' ', '%']) :
    withoutMarks (w.emit grouped c).text = c :: withoutMarks w.text := by
  have hcomma : withoutMarks (',' :: w.text) = withoutMarks w.text :=
    List.filter_cons_of_neg (by decide)
  rw [emit]
  split
  · rw [withoutMarks_cons h, hcomma]
  · rw [withoutMarks_cons h]

lemma count_emit {c : Char} (h : c ∉ [',', ' ', '%']) :
    (w.emit grouped c).text.count '%' = w.text.count '%' := by
  have hcomma : (',' :: w.text).count '%' = w.text.count '%' :=
    List.count_cons_of_ne (by decide)
  rw [emit]
  split
  · rw [count_percent_cons h, hcomma]
  · rw [count_percent_cons h]

/-- Digits that are shown one after the other stand in reverse. -/
lemma foldl_emit {ds : List Char} (h : Unmarked ds) (w : Walk) :
    withoutMarks (ds.foldl (emit grouped) w).text = ds.reverse ++ withoutMarks w.text ∧
      (ds.foldl (emit grouped) w).text.count '%' = w.text.count '%' := by
  induction ds generalizing w with
  | nil => exact ⟨rfl, rfl⟩
  | cons c ds ih =>
    rw [Unmarked, List.forall_mem_cons] at h
    obtain ⟨htext, hcount⟩ := ih h.2 (w.emit grouped c)
    rw [List.foldl_cons, htext, hcount, withoutMarks_emit h.1, count_emit h.1]
    simp

/-- What holds while digits are laid out: the text shows those that are not pending, after zeros if
none are, and as many percent signs as there were. -/
structure Shows (digits : List Char) (percents : Nat) (w : Walk) : Prop where
  digits : ∃ zeros shown, withoutMarks w.text = List.replicate zeros '0' ++ shown ∧
    w.pending.reverse ++ shown = digits ∧ (w.pending ≠ [] → zeros = 0)
  percents : w.text.count '%' = percents

variable {digits : List Char} {percents : Nat}

lemma Shows.pending (h : w.Shows digits percents) (hdigits : Unmarked digits) :
    Unmarked w.pending := by
  obtain ⟨zeros, shown, -, rfl, -⟩ := h.digits
  exact fun c hc => hdigits c (List.mem_append_left _ (List.mem_reverse.mpr hc))

/-- Showing all pending digits keeps what holds. -/
lemma Shows.flush (h : w.Shows digits percents) (hdigits : Unmarked digits) :
    (w.flush grouped).Shows digits percents := by
  obtain ⟨htext, hcount⟩ := foldl_emit (h.pending hdigits) w
  obtain ⟨zeros, shown, hshown, hall, hzeros⟩ := h.digits
  refine ⟨⟨zeros, digits, ?_, rfl, fun hpending => absurd rfl hpending⟩,
    hcount.trans h.percents⟩
  refine htext.trans ?_
  rw [hshown, ← hall]
  by_cases hpending : w.pending = []
  · rw [hpending, List.reverse_nil, List.nil_append, List.nil_append]
  · rw [hzeros hpending, List.replicate_zero, List.nil_append, List.nil_append]

/-- Showing one more character, and its digit if it is one, keeps what holds. -/
lemma Shows.emit {c : Char} {pending : List Char} (h : w.Shows digits percents)
    (hpending : w.pending = c :: pending) (hdigits : Unmarked digits) :
    (Walk.emit grouped { w with pending := pending } c).Shows digits percents := by
  have hc : c ∉ [',', ' ', '%'] := h.pending hdigits c (by simp [hpending])
  obtain ⟨zeros, shown, hshown, hall, hzeros⟩ := h.digits
  have hnone : zeros = 0 := hzeros (by simp [hpending])
  refine ⟨⟨0, c :: shown, ?_, ?_, fun _ => rfl⟩, (count_emit hc).trans h.percents⟩
  · rw [withoutMarks_emit hc, hshown, hnone]
    rfl
  · rw [← hall, hpending, pending_emit]
    simp

/-- A zero in front of all digits keeps what holds. -/
lemma Shows.emit_zero (h : w.Shows digits percents) (hpending : w.pending = []) :
    (w.emit grouped '0').Shows digits percents := by
  have hc : '0' ∉ [',', ' ', '%'] := by decide
  obtain ⟨zeros, shown, hshown, hall, -⟩ := h.digits
  refine ⟨⟨zeros + 1, shown, ?_, ?_, ?_⟩, (count_emit hc).trans h.percents⟩
  · rw [withoutMarks_emit hc, hshown, List.replicate_succ, List.cons_append]
  · rwa [pending_emit]
  · intro hne
    exact absurd hpending hne

/-- Text that is no digit keeps what holds, but for its percent signs. -/
lemma Shows.text {t : List Char} (h : w.Shows digits percents) (ht : withoutMarks t = []) :
    Shows digits (percents + t.count '%') { w with text := t ++ w.text } := by
  refine ⟨?_, ?_⟩
  · rw [withoutMarks_append, ht, List.nil_append]
    exact h.digits
  · rw [List.count_append, h.percents, Nat.add_comm]

/-- What a part keeps. -/
theorem Shows.step {part : Part} (h : w.Shows digits percents) (hdigits : Unmarked digits)
    (hpart : part.IsPlain) (leftmost : Bool) :
    (w.step grouped leftmost part).Shows digits (percents + [part].count .percent) := by
  cases part with
  | placeholder p =>
    have hplace : (w.place grouped p).Shows digits percents := by
      unfold place
      split
      · next hpending => exact h.emit hpending hdigits
      · next hpending => exact h.emit_zero hpending
      · next q _ _ _ hzero =>
        cases q with
        | digit => exact h
        | zero => exact absurd rfl hzero
        | space => exact h.text (t := [' ']) rfl
    cases leftmost with
    | true => exact hplace.flush hdigits
    | false => exact hplace
  | percent => exact h.text (t := ['%']) rfl
  | _ => exact hpart.elim

/-- What all parts keep. -/
theorem shows_steps {parts : List Part} (hparts : ∀ p ∈ parts, p.IsPlain)
    (hdigits : Unmarked digits) (leftmost : Bool) :
    (Walk.steps grouped { pending := digits.reverse } leftmost parts).Shows digits
      (parts.count .percent) := by
  induction parts generalizing leftmost with
  | nil => exact ⟨⟨0, [], rfl, by simp [steps], fun _ => rfl⟩, rfl⟩
  | cons part rest ih =>
    rw [List.forall_mem_cons] at hparts
    have hcount : (part :: rest).count .percent = rest.count .percent + [part].count .percent := by
      rw [← List.singleton_append, List.count_append, Nat.add_comm]
    rw [steps, hcount]
    exact (ih hparts.2 _).step hdigits hparts.1 leftmost

/-- The leftmost placeholder leaves no digits pending. -/
theorem pending_steps {parts : List Part} (hparts : ∀ p ∈ parts, p.IsPlain)
    (hplaceholder : parts.any Part.isPlaceholder) (w : Walk) :
    (w.steps grouped true parts).pending = [] := by
  induction parts with
  | nil => cases hplaceholder
  | cons part rest ih =>
    rw [List.forall_mem_cons] at hparts
    cases part with
    | placeholder p => rfl
    | percent => exact ih hparts.2 hplaceholder
    | _ => exact hparts.1.elim

end Walk

/-- Before the point all digits are shown, perhaps after some zeros, and each percent sign. -/
theorem withoutMarks_layoutWhole {digits : List Char} {parts : List Part}
    (hparts : ∀ p ∈ parts, p.IsPlain) (hplaceholder : parts.any Part.isPlaceholder)
    (hdigits : Unmarked digits) (grouped : Bool) :
    ∃ zeros, withoutMarks (layoutWhole digits parts grouped) =
        List.replicate zeros '0' ++ digits ∧
      (layoutWhole digits parts grouped).count '%' = parts.count .percent := by
  have hshows : (Walk.steps grouped _ true parts).Shows digits _ :=
    Walk.shows_steps hparts hdigits true
  obtain ⟨zeros, shown, hshown, hall, -⟩ := hshows.digits
  rw [Walk.pending_steps hparts hplaceholder, List.reverse_nil, List.nil_append] at hall
  exact ⟨zeros, by rw [layoutWhole, hshown, hall], hshows.percents⟩

/-! ## After the point -/

/-- The digits after the point that are shown at some places. -/
def roundedFraction : (places : Nat) → List Char → List Char
  | 0, _ => []
  | _, [] => []
  | 1, digit :: more => lastDigit digit more.head?
  | n + 2, digit :: more => digit :: roundedFraction (n + 1) more

lemma roundedFraction_nil (places : Nat) : roundedFraction places [] = [] := by
  cases places <;> rfl

lemma plain_lastDigit {c : Char} (h : c.isDigit) (next : Option Char) :
    Numeral.Plain (lastDigit c next) := by
  rw [lastDigit]
  split
  · exact Numeral.plain_digits _
  · exact Numeral.plain_cons.mpr ⟨h, Numeral.plain_nil⟩

/-- A placeholder shows a digit as it is, or rounded if it is the last placeholder. -/
lemma withoutMarks_layoutFraction_digit {c : Char} {more : List Char} {p : Placeholder}
    {rest : List Part} {zeros : Nat} (hc : c.isDigit)
    (htext : withoutMarks (layoutFraction more rest) =
      roundedFraction (rest.countP Part.isPlaceholder) more ++ List.replicate zeros '0') :
    withoutMarks (layoutFraction (c :: more) (.placeholder p :: rest)) =
        roundedFraction (rest.countP Part.isPlaceholder + 1) (c :: more) ++
          List.replicate zeros '0' ∧
      (layoutFraction (c :: more) (.placeholder p :: rest)).count '%' =
        (layoutFraction more rest).count '%' := by
  rw [layoutFraction]
  by_cases hrest : rest.any Part.isPlaceholder
  · -- Another placeholder follows, so the digit is not the last one.
    obtain ⟨n, hn⟩ : ∃ n, rest.countP Part.isPlaceholder = n + 1 :=
      Nat.exists_eq_add_one.mpr (by simpa [List.countP_pos_iff] using hrest)
    have hmark := notMem_marks_of_isDigit hc
    rw [if_pos hrest, hn, List.singleton_append, withoutMarks_cons hmark,
      count_percent_cons hmark, htext, hn]
    exact ⟨rfl, rfl⟩
  · have hn : rest.countP Part.isPlaceholder = 0 := by
      simpa [List.countP_eq_zero] using hrest
    have hlast := unmarked_of_plain (plain_lastDigit hc more.head?)
    rw [hn, roundedFraction, List.nil_append] at htext
    rw [if_neg hrest, hn, withoutMarks_append, hlast.withoutMarks_eq, htext, List.count_append,
      hlast.count_percent]
    exact ⟨rfl, Nat.zero_add _⟩

/-- After the point as many digits are shown as there are places, perhaps before some zeros, and
each percent sign. -/
theorem withoutMarks_layoutFraction {digits : List Char} {parts : List Part}
    (hparts : ∀ p ∈ parts, p.IsPlain) (hdigits : Numeral.Plain digits) :
    ∃ zeros, withoutMarks (layoutFraction digits parts) =
        roundedFraction (parts.countP Part.isPlaceholder) digits ++ List.replicate zeros '0' ∧
      (layoutFraction digits parts).count '%' = parts.count .percent := by
  induction parts generalizing digits with
  | nil => exact ⟨0, by simp [layoutFraction, roundedFraction], rfl⟩
  | cons part rest ih =>
    rw [List.forall_mem_cons] at hparts
    cases part with
    | placeholder p =>
      have hplaces : (Part.placeholder p :: rest).countP Part.isPlaceholder =
          rest.countP Part.isPlaceholder + 1 := List.countP_cons_of_pos rfl
      have hcount : (Part.placeholder p :: rest).count .percent = rest.count .percent :=
        List.count_cons_of_ne (by simp)
      rw [hplaces, hcount]
      cases digits with
      | nil =>
        obtain ⟨zeros, htext, hpercents⟩ := ih hparts.2 Numeral.plain_nil
        simp only [roundedFraction_nil, List.nil_append] at htext ⊢
        cases p with
        | zero =>
          refine ⟨zeros + 1, ?_, hpercents⟩
          rw [List.replicate_succ, ← htext]
          rfl
        | _ => exact ⟨zeros, htext, hpercents⟩
      | cons c more =>
        rw [Numeral.plain_cons] at hdigits
        obtain ⟨zeros, htext, hpercents⟩ := ih hparts.2 hdigits.2
        obtain ⟨hshown, hsame⟩ := withoutMarks_layoutFraction_digit (p := p) hdigits.1 htext
        exact ⟨zeros, hshown, hsame.trans hpercents⟩
    | percent =>
      obtain ⟨zeros, htext, hpercents⟩ := ih hparts.2 hdigits
      refine ⟨zeros, ?_, ?_⟩
      · rw [List.countP_cons_of_neg (by simp [Part.isPlaceholder]), ← htext]
        rfl
      · rw [layoutFraction, List.count_cons_self, List.count_cons_self, hpercents]
    | _ => exact hparts.1.elim

/-- Without literal text only digits, spaces and percent signs are shown after the point. -/
theorem mem_layoutFraction {digits : List Char} {parts : List Part}
    (hparts : ∀ p ∈ parts, p.text = []) (hdigits : Numeral.Plain digits) :
    ∀ c ∈ layoutFraction digits parts, c.isDigit ∨ c ∈ [' ', '%'] := by
  induction parts generalizing digits with
  | nil => exact nofun
  | cons part rest ih =>
    rw [List.forall_mem_cons] at hparts
    intro c hc
    cases part with
    | placeholder p =>
      cases digits with
      | nil =>
        obtain hc | hc := List.mem_append.mp hc
        · cases p <;> simp_all [Placeholder.pad]
        · exact ih hparts.2 Numeral.plain_nil c hc
      | cons d more =>
        rw [Numeral.plain_cons] at hdigits
        obtain hc | hc := List.mem_append.mp hc
        · left
          split at hc
          · rw [List.mem_singleton.mp hc]
            exact hdigits.1
          · exact plain_lastDigit hdigits.1 more.head? c hc
        · exact ih hparts.2 hdigits.2 c hc
    | percent =>
      obtain rfl | hc := List.mem_cons.mp hc
      · simp
      · exact ih hparts.2 hdigits c hc
    | literal text =>
      rw [layoutFraction, show text.toList = [] from hparts.1, List.nil_append] at hc
      exact ih hparts.2 hdigits c hc
    | _ => exact ih hparts.2 hdigits c hc

/-! ## The rounded number -/

lemma plain_roundedFraction {ds : List Char} (h : Numeral.Plain ds) (places : Nat) :
    Numeral.Plain (roundedFraction places ds) := by
  induction ds generalizing places with
  | nil =>
    rw [roundedFraction_nil]
    exact Numeral.plain_nil
  | cons c ds ih =>
    rw [Numeral.plain_cons] at h
    match places with
    | 0 => exact Numeral.plain_nil
    | 1 => exact plain_lastDigit h.1 _
    | n + 2 => exact Numeral.plain_cons.mpr ⟨h.1, ih h.2 (n + 1)⟩

lemma roundedFraction_append (ds : List Char) (c : Char) (more : List Char) :
    roundedFraction (ds.length + 1) (ds ++ c :: more) = ds ++ lastDigit c more.head? := by
  induction ds with
  | nil => rfl
  | cons d ds ih => rw [List.length_cons, List.cons_append, roundedFraction, ih, List.cons_append]

/-- Fewer digits than places are all shown. -/
lemma roundedFraction_eq_self {ds : List Char} {places : Nat} (h : ds.length < places) :
    roundedFraction places ds = ds := by
  induction ds generalizing places with
  | nil => exact roundedFraction_nil places
  | cons c ds ih =>
    match places with
    | n + 2 => rw [roundedFraction, ih (by simpa using h)]

/-- A digit rounds up from five on. -/
lemma roundsUp_iff {c : Char} (h : c.isDigit) : roundsUp c ↔ 5 ≤ Numeral.value [c] := by
  have hrange : 48 ≤ c.toNat ∧ c.toNat ≤ 57 := by
    simpa [Char.isDigit, UInt32.le_iff_toNat_le] using h
  rw [Numeral.value_singleton h]
  constructor
  · intro hup
    simp only [roundsUp, List.contains_iff_mem, List.mem_cons, List.not_mem_nil, or_false] at hup
    obtain rfl | rfl | rfl | rfl | rfl := hup <;> decide
  · intro hfive
    obtain hc | hc | hc | hc | hc : c.toNat = 53 ∨ c.toNat = 54 ∨ c.toNat = 55 ∨ c.toNat = 56 ∨
      c.toNat = 57 := by omega
    all_goals rw [← c.ofNat_toNat, hc]; decide

/-- A nine that is rounded up becomes a one and a zero after the digits before it. -/
lemma fixedPoint_digits_of_nine {whole ds : List Char} {c : Char} (hwhole : Numeral.Plain whole)
    (hds : Numeral.Plain ds) (hnine : Numeral.value [c] = 9) :
    Numeral.fixedPoint whole (ds ++ Numeral.digits (Numeral.value [c] + 1)) =
      Numeral.fixedPoint whole ds + 1 / 10 ^ (ds.length + 1) := by
  have hten : Numeral.digits (Numeral.value [c] + 1) = ['1', '0'] := by
    rw [hnine]
    rfl
  have hplain : Numeral.Plain ['1', '0'] := by simp
  have hvalue : Numeral.value ['1', '0'] = 10 := rfl
  rw [hten, Numeral.fixedPoint_append hwhole hds hplain, hvalue]
  congr 1
  simp only [List.length_cons, List.length_nil, pow_add]
  field_simp
  norm_num

/-- Another digit that is rounded up is the next digit. -/
lemma fixedPoint_digits_of_ne_nine {whole ds : List Char} {c : Char}
    (hwhole : Numeral.Plain whole) (hds : Numeral.Plain ds) (hc : c.isDigit)
    (hnine : Numeral.value [c] ≠ 9) :
    Numeral.fixedPoint whole (ds ++ Numeral.digits (Numeral.value [c] + 1)) =
      Numeral.fixedPoint whole (ds ++ [c]) + 1 / 10 ^ (ds.length + 1) := by
  have hc' : Numeral.Plain [c] := Numeral.plain_cons.mpr ⟨hc, Numeral.plain_nil⟩
  have hless : Numeral.value [c] + 1 < 10 := by
    have := Numeral.value_singleton_lt hc
    omega
  have hlength : (Numeral.digits (Numeral.value [c] + 1)).length = 1 := by
    rw [Numeral.digits, Nat.toDigits_of_lt_base hless]
    rfl
  rw [Numeral.fixedPoint_append hwhole hds hc',
    Numeral.fixedPoint_append hwhole hds (Numeral.plain_digits _), Numeral.value_digits, hlength,
    List.length_singleton, add_assoc, ← add_div]
  push_cast
  rfl

/-- The digit at the last place is rounded by the next one. -/
theorem withoutCarry_lastDigit {whole ds more : List Char} {c d : Char}
    (hwhole : Numeral.Plain whole) (hds : Numeral.Plain ds) (hc : c.isDigit)
    (hmore : Numeral.Plain (d :: more)) :
    Numeral.withoutCarry (ds.length + 1) (Numeral.fixedPoint whole (ds ++ c :: d :: more)) =
      Numeral.fixedPoint whole (ds ++ lastDigit c (some d)) := by
  have hd : d.isDigit := (Numeral.plain_cons.mp hmore).1
  have hc' : Numeral.Plain [c] := Numeral.plain_cons.mpr ⟨hc, Numeral.plain_nil⟩
  have hds' : Numeral.Plain (ds ++ [c]) := Numeral.plain_append.mpr ⟨hds, hc'⟩
  have hsplit : ds ++ c :: d :: more = ds ++ [c] ++ d :: more := by simp
  have hdigit := Numeral.fractionDigit_fixedPoint hwhole hds hc hmore
  have hnext := Numeral.fractionDigit_fixedPoint hwhole hds' hd (Numeral.plain_cons.mp hmore).2
  have hcut := Numeral.truncated_fixedPoint hwhole hds (Numeral.plain_cons.mpr ⟨hc, hmore⟩)
  have hround := Numeral.halfUp_fixedPoint hwhole hds' hmore
  rw [← hsplit, List.length_append, List.length_singleton] at hnext hround
  rw [Numeral.withoutCarry, if_neg (Nat.succ_ne_zero _), hdigit, hnext, Nat.add_sub_cancel, hcut,
    hround, lastDigit]
  by_cases hup : 5 ≤ Numeral.value [d]
  · have hup' : (some d).any roundsUp := (roundsUp_iff hd).mpr hup
    rw [if_pos hup', if_pos hup]
    by_cases hnine : Numeral.value [c] = 9
    · rw [if_pos ⟨hnine, hup⟩, fixedPoint_digits_of_nine hwhole hds hnine]
    · rw [if_neg (fun h => hnine h.1), fixedPoint_digits_of_ne_nine hwhole hds hc hnine]
  · have hup' : ¬ (some d).any roundsUp := fun h => hup ((roundsUp_iff hd).mp h)
    rw [if_neg hup', if_neg hup, if_neg (fun h => hup h.2), zero_div, add_zero]

/-- Nothing is rounded where there are fewer digits than places: zeros take the other places. -/
lemma withoutCarry_of_length_le {whole ds : List Char} {n : Nat} (hwhole : Numeral.Plain whole)
    (hds : Numeral.Plain ds) (h : ds.length ≤ n) :
    Numeral.withoutCarry (n + 1) (Numeral.fixedPoint whole ds) = Numeral.fixedPoint whole ds := by
  have hlength : (ds ++ List.replicate (n - ds.length) '0').length = n := by
    rw [List.length_append, List.length_replicate]
    omega
  have hpadded : Numeral.Plain (ds ++ List.replicate (n - ds.length) '0') :=
    Numeral.plain_append.mpr ⟨hds, Numeral.plain_replicate_zero _⟩
  have hzero : Numeral.Plain ['0'] := Numeral.plain_replicate_zero 1
  have hlast := withoutCarry_lastDigit hwhole hpadded (c := '0') rfl hzero
  have hnone : lastDigit '0' (some '0') = List.replicate 1 '0' := rfl
  have htwo : ['0', '0'] = List.replicate 2 '0' := rfl
  rwa [hlength, hnone, htwo, Numeral.fixedPoint_append_zeros hwhole hpadded,
    Numeral.fixedPoint_append_zeros hwhole hpadded,
    Numeral.fixedPoint_append_zeros hwhole hds] at hlast

/-- The digits that are shown are worth the number rounded without a carry. -/
theorem withoutCarry_fixedPoint {whole ds : List Char} (hwhole : Numeral.Plain whole)
    (hds : Numeral.Plain ds) (places : Nat) :
    Numeral.withoutCarry places (Numeral.fixedPoint whole ds) =
      Numeral.fixedPoint whole (roundedFraction places ds) := by
  have hzero : Numeral.Plain ['0'] := Numeral.plain_replicate_zero 1
  cases places with
  | zero =>
    have hcut := Numeral.truncated_fixedPoint hwhole Numeral.plain_nil hds
    rw [List.nil_append, List.length_nil] at hcut
    rw [Numeral.withoutCarry, if_pos rfl, hcut, roundedFraction]
  | succ n =>
    obtain hfew | hmany := Nat.lt_or_ge ds.length (n + 1)
    · rw [withoutCarry_of_length_le hwhole hds (Nat.le_of_lt_succ hfew),
        roundedFraction_eq_self hfew]
    · obtain ⟨c, more, hdrop⟩ := List.exists_cons_of_ne_nil
        (show ds.drop n ≠ [] by simpa using Nat.lt_of_succ_le hmany)
      have hsplit : ds.take n ++ c :: more = ds := by rw [← hdrop, List.take_append_drop]
      have hlength : (ds.take n).length = n := by
        rw [List.length_take]
        omega
      have hrounded := roundedFraction_append (ds.take n) c more
      have hrest := hds.drop n
      rw [hdrop, Numeral.plain_cons] at hrest
      rw [hlength, hsplit] at hrounded
      rw [hrounded]
      cases more with
      | nil =>
        have hlast := withoutCarry_lastDigit hwhole (hds.take n) hrest.1 hzero
        have hpadded : ds.take n ++ [c, '0'] = ds ++ List.replicate 1 '0' := by
          conv_rhs => rw [← hsplit, List.append_assoc]
          rfl
        have hnone : lastDigit c (some '0') = lastDigit c none := rfl
        rw [hlength, hpadded, Numeral.fixedPoint_append_zeros hwhole hds, hnone] at hlast
        exact hlast
      | cons d more =>
        have hlast := withoutCarry_lastDigit hwhole (hds.take n) hrest.1 hrest.2
        rw [hlength, hsplit] at hlast
        exact hlast

end FormatCode
