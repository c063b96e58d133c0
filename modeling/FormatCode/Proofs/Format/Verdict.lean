import FormatCode.Format.Display
import FormatCode.Proofs.Format.Choice

/-!
# What becomes of a value

A format first decides which section applies to a value, if any, and what is shown follows from that
decision. The only values that keep a format from deciding are decimal NaNs: everything else can be
compared with zero and with the thresholds of conditions.

## Main definitions

* `Verdict.render` — what is shown for a value.

## Main statements

* `Format.exists_verdict_of_decides`, `Format.exists_verdict` — a format decides on every value that
  its sections decide on, and on every value but a decimal NaN if its conditions can be read.
* `Format.renderCell_of_verdict` — what is shown follows from the decision.
* `Section.showNumber_of_isFinite` — how a section shows a finite number.
-/

namespace FormatCode

def Verdict.render (v : CellValue) : Verdict → Except Fault Rendered
  | applies s => (s.showCell v).map fun text => ⟨String.ofList text, s.color⟩
  | unmatched | rejected _ => v.plainText.map fun text => ⟨String.ofList text, none⟩

/-! ## Deciding on a value -/

namespace Format

variable {f : Format} {v : CellValue}

lemma mem_of_select {s : Section} (h : f.select v = .ok (some s)) : s ∈ f.sections := by
  unfold select at h
  cases hchoose : f.choose v with
  | error e => simp [hchoose, Except.map] at h
  | ok position =>
    rw [hchoose] at h
    obtain ⟨i, -, hi⟩ := Option.bind_eq_some_iff.mp (Except.ok.inj h)
    exact List.mem_of_getElem? hi

/-- A format whose sections decide on a value selects a section for it or none. -/
lemma exists_select (hs : ∀ s ∈ f.sections, s.Decides v) (hv : ¬ v.IsDecimalNan) :
    ∃ selected, f.select v = .ok selected := by
  obtain ⟨sections⟩ := f
  match sections with
  | [] => exact ⟨none, rfl⟩
  | [s] => exact ⟨some s, rfl⟩
  | s :: t :: rest => exact ⟨_, select_eq_chosen_of_decides (by simp) hs hv⟩

/-- A format whose sections decide on a value decides on it. -/
theorem exists_verdict_of_decides (hs : ∀ s ∈ f.sections, s.Decides v) (hv : ¬ v.IsDecimalNan) :
    ∃ verdict, f.verdict v = .ok verdict := by
  obtain ⟨selected, hselect⟩ := exists_select hs hv
  rw [verdict, hselect]
  cases selected with
  | none => exact ⟨.unmatched, rfl⟩
  | some s =>
    cases hc : s.condition with
    | none => exact ⟨.applies s, by simp [bind, Except.bind, hc, pure, Except.pure]⟩
    | some c =>
      obtain ⟨accepted, haccepts⟩ := hs s (mem_of_select hselect)
      rw [Section.claims, hc] at haccepts
      refine ⟨if accepted then .applies s else .rejected c, ?_⟩
      cases accepted <;> simp [bind, Except.bind, hc, haccepts, pure, Except.pure]

/-- A format whose conditions can be read decides on every value but a decimal NaN. -/
theorem exists_verdict (hs : ∀ s ∈ f.sections, s.IsComparable) (hv : ¬ v.IsDecimalNan) :
    ∃ verdict, f.verdict v = .ok verdict :=
  exists_verdict_of_decides (fun s hmem => (hs s hmem).decides hv) hv

lemma condition_eq_none (hf : f.hasConditions = false) {s : Section} (hs : s ∈ f.sections) :
    s.condition = none := by
  rw [hasConditions, List.any_eq_false] at hf
  simpa using hf s hs

/-- Without conditions the section that is selected applies. -/
lemma verdict_of_select (hf : f.hasConditions = false) {selected : Option Section}
    (h : f.select v = .ok selected) : f.verdict v = .ok (selected.elim .unmatched .applies) := by
  cases selected with
  | none => simp [verdict, h, bind, Except.bind, pure, Except.pure]
  | some s =>
    have hcondition := condition_eq_none hf (mem_of_select h)
    simp [verdict, h, hcondition, bind, Except.bind, pure, Except.pure]

/-- A section that stands alone applies to every value, unless it has a condition. -/
lemma verdict_singleton {s : Section} (hs : s.condition = none) (v : CellValue) :
    verdict ⟨[s]⟩ v = .ok (.applies s) :=
  have hselect : select ⟨[s]⟩ v = .ok (some s) := rfl
  verdict_of_select (by simp [hasConditions, hs]) hselect

/-! ## What is shown -/

/-- What is shown follows from what becomes of the value. -/
lemma renderCell_of_verdict {verdict : Verdict} (h : f.verdict v = .ok verdict) :
    f.renderCell v = verdict.render v := by
  simp only [renderCell, h]
  cases verdict <;> rfl

end Format

/-- The format of a text shows a value as the text does. -/
lemma render_of_parse {format : String} {f : Format} (h : Format.parse format = .ok f)
    (v : CellValue) : render v.toValue (.text format) = f.renderCell v := by
  simp only [render, Value.toText, bind, Except.bind, h, Format.render, Value.toCell_toValue]

/-- A section shows a finite number by its digits, after it is multiplied. -/
lemma Section.showNumber_of_isFinite {s : Section} {n : Number} {negative : Bool} (hn : n.isFinite)
    (hnegative : n.compareZero .less = .ok negative) :
    s.showNumber n = ((s.scaled n).bind Number.positional).map (s.layout negative) := by
  rw [showNumber, if_pos hn, hnegative]
  cases s.scaled n with
  | error e => rfl
  | ok m => cases h : m.positional <;> simp [bind, Except.bind, h, Except.map, pure, Except.pure]

end FormatCode
