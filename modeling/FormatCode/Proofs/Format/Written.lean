import FormatCode.Proofs.Format.EqualValues
import FormatCode.Proofs.Format.PieceSections
import FormatCode.Proofs.Format.Scale
import FormatCode.Proofs.Node.Equality
import FormatCode.Proofs.Value.Written

/-!
# What the written form of a format tells

Equality looks at the value of a number only, and takes a truth value for a number. Between formats
that makes no difference, as long as their thresholds are integers: each field of a section holds a
value of one sort, so that formats are equal only if they are the same. The written form of such a
format tells the format, whatever characters the literals hold. A format that is read has a written
form: the scale is one or a thousand, a threshold has no more digits than are written, and there are
no more percent signs than characters in the text.

## Main definitions

* `Format.HasWholeThresholds` — whether the thresholds of a format are integers.

## Main statements

* `Format.eq_of_content_eq` — formats are equal only if they are the same.
* `Format.exists_writeWith_of_parse` — a format that is read has a written form.
* `Format.tells_equal_of_writeWith` — formats are written the same if they are equal, and only then.
-/

namespace FormatCode

def Section.HasWholeThreshold (s : Section) : Prop :=
  ∀ c, s.condition = some c → ∃ i : Int, c.threshold = .int i

def Format.HasWholeThresholds (f : Format) : Prop := ∀ s ∈ f.sections, s.HasWholeThreshold

/-! ## Formats are legible -/

section Legible

variable {whole : Int → Prop}

lemma Value.isLegible_textOrNull (s : Option String) : (textOrNull s).IsLegible whole := by
  cases s with
  | none => exact .null
  | some s => exact .text s

lemma Part.isLegible_toValue (p : Part) : p.toValue.IsLegible whole := by
  cases p with
  | placeholder p => cases p <;> exact .node rfl nofun
  | literal text => exact .node rfl (List.forall_mem_singleton.mpr (.text text))
  | _ => exact .node rfl nofun

/-- A section is legible if its threshold, its number of percent signs and its scale are. -/
lemma Section.isLegible_toValue {s : Section}
    (hcondition : ∀ c, s.condition = some c → ∃ i, c.threshold = .int i ∧ whole i)
    (hcount : whole s.percentCount) (hscale : whole s.scale) : s.toValue.IsLegible whole := by
  have hfield : (s.condition.elim .null Condition.toValue).IsLegible whole := by
    cases hc : s.condition with
    | none => exact .null
    | some c =>
      obtain ⟨i, hi, hwhole⟩ := hcondition c hc
      refine .node rfl (List.forall_mem_cons.mpr ⟨.text _, List.forall_mem_singleton.mpr ?_⟩)
      rw [hi]
      exact .int hwhole
  have hparts : ∀ x ∈ s.parts.map Part.toValue, x.IsLegible whole := by
    intro x hx
    obtain ⟨p, -, rfl⟩ := List.mem_map.mp hx
    exact p.isLegible_toValue
  refine .node rfl ?_
  simp only [List.forall_mem_cons, List.not_mem_nil, false_imp_iff, implies_true, and_true]
  exact ⟨hfield, Value.isLegible_textOrNull _, .tuple hparts, .int hcount, .bool _, .int hscale,
    Value.isLegible_textOrNull _⟩

lemma Format.isLegible_toValue {f : Format} (h : ∀ s ∈ f.sections, s.toValue.IsLegible whole) :
    f.toValue.IsLegible whole := by
  refine .node rfl (List.forall_mem_singleton.mpr (.tuple ?_))
  intro x hx
  obtain ⟨s, hs, rfl⟩ := List.mem_map.mp hx
  exact h s hs

lemma Format.HasWholeThresholds.isLegible {f : Format} (h : f.HasWholeThresholds) :
    f.toValue.IsLegible fun _ => True := by
  refine isLegible_toValue fun s hs => Section.isLegible_toValue ?_ trivial trivial
  intro c hc
  obtain ⟨i, hi⟩ := h s hs c hc
  exact ⟨i, hi, trivial⟩

end Legible

/-! ## Equal formats -/

lemma Value.eq_of_content_textOrNull {s t : Option String}
    (h : (textOrNull s).content = (textOrNull t).content) : s = t := by
  cases s <;> cases t <;> cases h <;> rfl

lemma Value.eq_of_content_int {i j : Int} (h : (int i).content = (int j).content) : i = j := by
  have hextended : (Number.int i).extended = (Number.int j).extended := Content.number.inj h
  rw [Number.extended_of_isFinite rfl, Number.extended_of_isFinite rfl] at hextended
  have hrat : (i : ℚ) = j := WithTop.coe_inj.mp (WithBot.coe_inj.mp hextended)
  exact_mod_cast hrat

lemma Value.eq_of_content_bool {a b : Bool} (h : (bool a).content = (bool b).content) : a = b := by
  have hint := eq_of_content_int (i := if a then 1 else 0) (j := if b then 1 else 0) h
  cases a <;> cases b <;> first | rfl | cases hint

lemma Part.eq_of_content_eq {p q : Part} (h : p.toValue.content = q.toValue.content) : p = q := by
  rcases p with _ | (_ | _ | _) | _ | _ | text <;> rcases q with _ | (_ | _ | _) | _ | _ | text' <;>
    cases h <;> rfl

lemma Part.eq_of_contents_eq {ps qs : List Part}
    (h : Value.contents (ps.map toValue) = Value.contents (qs.map toValue)) : ps = qs := by
  rw [Value.contents_eq_map, Value.contents_eq_map, List.map_map, List.map_map] at h
  exact List.map_injective_iff.mpr (fun _ _ => eq_of_content_eq) h

lemma Section.condition_eq_of_content_eq {s t : Section} (hs : s.HasWholeThreshold)
    (ht : t.HasWholeThreshold) (h : (s.condition.elim .null Condition.toValue).content =
      (t.condition.elim .null Condition.toValue).content) : s.condition = t.condition := by
  cases hc : s.condition with
  | none =>
    cases hd : t.condition with
    | none => rfl
    | some d =>
      rw [hc, hd] at h
      cases h
  | some c =>
    cases hd : t.condition with
    | none =>
      rw [hc, hd] at h
      cases h
    | some d =>
      obtain ⟨i, hi⟩ := hs c hc
      obtain ⟨j, hj⟩ := ht d hd
      obtain ⟨operator, threshold⟩ := c
      obtain ⟨operator', threshold'⟩ := d
      obtain rfl : threshold = .int i := hi
      obtain rfl : threshold' = .int j := hj
      rw [hc, hd] at h
      have hfields := (Content.node.inj h).2
      have htext : operator = operator' := Content.text.inj (List.cons.inj hfields).1
      have hint : i = j := Value.eq_of_content_int (List.cons.inj (List.cons.inj hfields).2).1
      rw [htext, hint]

/-- Sections with the same contents are the same, if their thresholds are integers. -/
lemma Section.eq_of_content_eq {s t : Section} (hs : s.HasWholeThreshold)
    (ht : t.HasWholeThreshold) (h : s.toValue.content = t.toValue.content) : s = t := by
  have hfields := (Content.node.inj h).2
  simp only [Value.contents, List.cons.injEq, and_true] at hfields
  obtain ⟨hcondition, hcolor, hparts, hcount, hgrouped, hscale, hscientific⟩ := hfields
  obtain ⟨condition, color, parts, percentCount, grouped, scale, scientific⟩ := s
  obtain ⟨condition', color', parts', percentCount', grouped', scale', scientific'⟩ := t
  obtain rfl : condition = condition' := condition_eq_of_content_eq hs ht hcondition
  obtain rfl : color = color' := Value.eq_of_content_textOrNull hcolor
  obtain rfl : parts = parts' := Part.eq_of_contents_eq (Content.tuple.inj hparts)
  obtain rfl : percentCount = percentCount' := Int.ofNat_inj.mp (Value.eq_of_content_int hcount)
  obtain rfl : grouped = grouped' := Value.eq_of_content_bool hgrouped
  obtain rfl : scale = scale' := Int.ofNat_inj.mp (Value.eq_of_content_int hscale)
  obtain rfl : scientific = scientific' := Value.eq_of_content_textOrNull hscientific
  rfl

/-- Formats with the same contents are the same, if their thresholds are integers. -/
theorem Format.eq_of_content_eq {f g : Format} (hf : f.HasWholeThresholds)
    (hg : g.HasWholeThresholds) (h : f.toValue.content = g.toValue.content) : f = g := by
  obtain ⟨sections⟩ := f
  obtain ⟨sections'⟩ := g
  have hsections : Value.contents (sections.map Section.toValue) =
      Value.contents (sections'.map Section.toValue) :=
    Content.tuple.inj (List.cons.inj (Content.node.inj h).2).1
  clear h
  congr 1
  induction sections generalizing sections' with
  | nil =>
    cases sections' with
    | nil => rfl
    | cons t rest => cases hsections
  | cons s rest ih =>
    cases sections' with
    | nil => cases hsections
    | cons t rest' =>
      obtain ⟨hs, hrest⟩ := List.forall_mem_cons.mp hf
      obtain ⟨ht, hrest'⟩ := List.forall_mem_cons.mp hg
      obtain ⟨hfirst, hothers⟩ := List.cons.inj hsections
      obtain rfl := Section.eq_of_content_eq hs ht hfirst
      rw [ih hrest rest' hrest' hothers]

/-! ## Integers that are written -/

namespace Numeral

lemma fits_of_lt {n m : Nat} (h : n < 10 ^ m) (hm : m ≤ maxDigits) : fits n :=
  decide_eq_true (h.trans_le (Nat.pow_le_pow_right (by decide) hm))

end Numeral

/-- An integer that is read as a threshold has no more digits than are written. -/
lemma Threshold.fits_of_value {t : Threshold} {i : Int} (h : t.value = .ok (.int i)) :
    Numeral.fits i.natAbs := by
  unfold value at h
  split at h
  · cases h
  · split at h
    · next hlength =>
      have hi : i.natAbs = Numeral.value t.whole := by
        obtain rfl := Value.int.inj (Except.ok.inj h)
        split <;> omega
      rw [hi]
      exact Numeral.fits_of_lt (Numeral.value_lt _) hlength
    · cases h

/-- A text has no more tokens than characters. -/
lemma length_le_of_tokenize {format : String} {ts : List Token} (h : tokenize format = .ok ts) :
    ts.length ≤ format.length := by
  obtain ⟨ls, hspells, hreads⟩ := tokenize_eq_ok_iff.mp h
  rw [← hreads.length_eq, ← String.length_toList]
  generalize format.toList = s at hspells
  clear h hreads
  induction hspells with
  | nil => exact Nat.le_refl 0
  | cons hfits _ ih =>
    have hpos := List.length_pos_iff.mpr (Lexeme.source_ne_nil hfits)
    rw [List.length_cons, List.length_append]
    omega

lemma Section.scale_addAll_le (vs tail : List Token) :
    (Section.addAll {} none vs tail).scale ≤ 1000 := by
  obtain ⟨hscaled, hkept⟩ := scale_addAll {} none vs tail
  by_cases h : EndsInComma ((none : Option Token).toList ++ vs) tail
  · exact (hscaled h).le
  · exact (hkept h).trans_le (by decide)

/-- A format that is read has a written form, if its thresholds are integers and the number of
characters of its text is not too long to be written. -/
theorem Format.exists_writeWith_of_parse {format : String} {f : Format}
    (h : parse format = .ok f) (hwhole : f.HasWholeThresholds)
    (hlength : format.length < 10 ^ Numeral.maxDigits) (printable : Char → Bool) :
    ∃ s, f.toValue.writeWith printable = .ok s := by
  obtain ⟨ts, htokenize, hsections⟩ := exists_sublist_of_parse h
  obtain ⟨us, hus, hconditions⟩ := exists_condition_of_parse h
  refine Value.IsLegible.exists_writeWith (isLegible_toValue fun s hs => ?_) printable
  refine Section.isLegible_toValue (fun c hc => ?_) ?_ ?_
  · obtain ⟨i, hi⟩ := hwhole s hs c hc
    obtain ⟨-, t, -, ht⟩ := Token.exists_value_of_tokenize hus (hconditions s hs c hc)
    exact ⟨i, hi, t.fits_of_value (ht.trans (congrArg _ hi))⟩
  · obtain ⟨vs, tail, hvs, rfl⟩ := hsections s hs
    have hcount : (Section.addAll {} none vs tail).percentCount ≤ format.length := by
      calc (Section.addAll {} none vs tail).percentCount
        _ = 0 + vs.countP Token.isPercentMark := Section.percentCount_addAll {} none vs tail
        _ ≤ vs.length := by rw [Nat.zero_add]; exact List.countP_le_length
        _ ≤ ts.length := hvs.length_le
        _ ≤ format.length := length_le_of_tokenize htokenize
    exact Numeral.fits_of_lt (hcount.trans_lt hlength) le_rfl
  · obtain ⟨vs, tail, -, rfl⟩ := hsections s hs
    have hscale := Section.scale_addAll_le vs tail
    exact Numeral.fits_of_lt (m := 4) (hscale.trans_lt (by decide)) (by decide)

/-! ## What is written tells the format -/

/-- Two formats that are read and whose thresholds are all integers are written the same if they are
equal, and only then, whichever characters are shown as they are. Each has a written form, if the
number of characters of its text is not too long to be written. -/
theorem Format.tells_equal_of_writeWith {format format' : String} {f g : Format}
    (hparse : parse format = .ok f) (hparse' : parse format' = .ok g)
    (hwhole : f.HasWholeThresholds) (hwhole' : g.HasWholeThresholds) (printable : Char → Bool) :
    (format.length < 10 ^ Numeral.maxDigits → ∃ s, f.toValue.writeWith printable = .ok s) ∧
    (format'.length < 10 ^ Numeral.maxDigits → ∃ t, g.toValue.writeWith printable = .ok t) ∧
    ∀ s t, f.toValue.writeWith printable = .ok s → g.toValue.writeWith printable = .ok t →
      Tells (f.toValue.equal g.toValue) (s = t) ∧
      ∀ (w : Workbench) (p q : Path), w.IsClosed → w.view p = .ok f.toValue →
        w.view q = .ok g.toValue → ∃ e, w.ask (.equal p q) = .ok (.equality e) ∧
          (e = true ↔ s = t) := by
  refine ⟨fun h => exists_writeWith_of_parse hparse hwhole h printable,
    fun h => exists_writeWith_of_parse hparse' hwhole' h printable, fun s t hs ht => ?_⟩
  have hx := hwhole.isLegible
  have hy := hwhole'.isLegible
  have hcontent : f.toValue.content = g.toValue.content ↔ s = t := by
    rw [hx.write_eq_iff hy hs ht]
    constructor
    · intro heq
      rw [eq_of_content_eq hwhole hwhole' heq]
    · intro heq
      rw [heq]
  refine ⟨(Value.tells_equal hx.hasContent hy.hasContent).congr hcontent, ?_⟩
  intro w p q hw hp hq
  obtain ⟨e, he, hiff⟩ := hw.exists_tells hp hx.hasContent hq hy.hasContent
  exact ⟨e, (Workbench.ask_equal he).1, hiff.trans hcontent⟩

/-- Literals of a quote, a parenthesis and a comma, which are told from those in another order. -/
theorem Format.tells_equal_of_writeWith_marks :
    ∃ f g : Format, parse "[>5]0\x22'),\x22" = .ok f ∧ parse "[>5]0\x22',)\x22" = .ok g ∧
      ∃ s t, f.toValue.writeWith Unicode.isPrintable = .ok s ∧
        g.toValue.writeWith Unicode.isPrintable = .ok t ∧ s ≠ t ∧
        f.toValue.equal g.toValue = .ok false ∧
        ∃ w ∈ (({} : Workbench).run [.make "first" f.toValue, .make "second" g.toValue]).map
          Prod.snd, w.ask (.equal ⟨"first", []⟩ ⟨"second", []⟩) = .ok (.equality false) := by
  let withLiterals (texts : List String) : Format := ⟨[{
    condition := some ⟨">", .int 5⟩
    parts := .placeholder .zero :: texts.map .literal }]⟩
  have hwhole : ∀ texts, (withLiterals texts).HasWholeThresholds := by
    intro texts s hs c hc
    obtain rfl := List.mem_singleton.mp hs
    obtain rfl := Option.some.inj hc
    exact ⟨5, rfl⟩
  have hlength : ∀ n < 10 ^ 2, n < 10 ^ Numeral.maxDigits := fun n hn =>
    hn.trans_le (Nat.pow_le_pow_right (by decide) (by decide))
  have hf : parse "[>5]0\x22'),\x22" = .ok (withLiterals ["'", ")", ","]) := rfl
  have hg : parse "[>5]0\x22',)\x22" = .ok (withLiterals ["'", ",", ")"]) := rfl
  obtain ⟨hwrites, hwrites', htells⟩ :=
    tells_equal_of_writeWith hf hg (hwhole _) (hwhole _) Unicode.isPrintable
  obtain ⟨s, hs⟩ := hwrites (hlength _ (by decide))
  obtain ⟨t, ht⟩ := hwrites' (hlength _ (by decide))
  obtain ⟨⟨e, he, hiff⟩, hanswers⟩ := htells s t hs ht
  have hequal : Value.equal (withLiterals ["'", ")", ","]).toValue
    (withLiterals ["'", ",", ")"]).toValue = .ok false := rfl
  obtain rfl : e = false := Except.ok.inj (he.symm.trans hequal)
  have hne : s ≠ t := fun heq => Bool.false_ne_true (hiff.mpr heq)
  refine ⟨_, _, hf, hg, s, t, hs, ht, hne, he, _, .tail _ (.head _), ?_⟩
  have hw := Workbench.isClosed_run (w := {}) nofun
    [.make "first" (withLiterals ["'", ")", ","]).toValue,
      .make "second" (withLiterals ["'", ",", ")"]).toValue] _ (.tail _ (.tail _ (.head _)))
  obtain ⟨e', he', hiff'⟩ := hanswers _ ⟨"first", []⟩ ⟨"second", []⟩ hw rfl rfl
  obtain rfl : e' = false := Bool.eq_false_iff.mpr fun htrue => hne (hiff'.mp htrue)
  exact he'

end FormatCode
