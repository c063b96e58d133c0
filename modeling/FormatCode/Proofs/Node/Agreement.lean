import FormatCode.Node.Assembly
import FormatCode.Node.Display
import FormatCode.Proofs.Format.DigitText
import FormatCode.Proofs.Number.SignBit

/-!
# Formats and their nodes

The node of a format does what the format does, although it is asked for each field by name and
could hold anything there: it chooses the section that the format chooses, shows what the format
shows, and has the same faults. Nodes of tokens are assembled to the node of the format that the
tokens are assembled to.

## Main definitions

* `Draft.toAssembly` — the nodes of what is assembled so far.

## Main statements

* `Value.layoutWhole_toValue`, `Value.layoutFraction_toValue` — digits among nodes of parts.
* `Format.chooseSection_toValue`, `Format.choose_toValue` — the section for a value.
* `Section.showThrough_toValue`, `Format.display_toValue` — what a value is shown as.
* `Value.assemble_eq` — what nodes of tokens are assembled to.
-/

namespace FormatCode

/-! ## Numbers to lay out -/

/-- A number that is laid out is written without a sign. -/
lemma Section.negative_of_scaled {s : Section} {n m : Number} (hn : n.isFinite)
    (hm : s.scaled n = .ok m) {written : Positional} (h : m.positional = .ok written) :
    written.negative = false := by
  rw [Number.negative_of_positional h]
  obtain ⟨-, hm⟩ | ⟨-, magnitude, hmagnitude, hm⟩ := scaled_cases hm
  · exact Number.signBit_magnitude hn hm
  · exact Number.signBit_scaleByPercent (Number.signBit_magnitude hn hmagnitude) hm

/-- A whole number of percent signs is a percent count of a kind that suits every number. -/
lemma Number.scaleBy_natCast (n : Number) (percents : Nat) :
    n.scaleBy (.int percents) = n.scaleByPercent percents := rfl

/-! ## Tests of nodes -/

section tests

variable {α : Type} {toValue : α → Value} {p : Value → Except Fault Bool} {q : α → Bool}

lemma anyM_map_eq (h : ∀ a, p (toValue a) = .ok (q a)) (items : List α) :
    (items.map toValue).anyM p = .ok (items.any q) := by
  induction items with
  | nil => rfl
  | cons a rest ih =>
    rw [List.map_cons, List.anyM, h, List.any_cons]
    cases q a
    · exact ih
    · rfl

lemma firstWith_map_eq (h : ∀ a, p (toValue a) = .ok (q a)) (items : List α) :
    Value.firstWith p (items.map toValue) = .ok (items.findIdx? q) := by
  induction items with
  | nil => rfl
  | cons a rest ih =>
    rw [List.map_cons, Value.firstWith, h, ih, List.findIdx?_cons]
    cases q a <;> rfl

end tests

/-! ## Parts -/

namespace Part

variable (p : Part)

lemma isPlaceholder_toValue : p.toValue.isPlaceholder = .ok p.isPlaceholder := by
  cases p with
  | placeholder p => cases p <;> rfl
  | _ => rfl

lemma isPoint_toValue : p.toValue.isPoint = (p == point) := by
  cases p with
  | placeholder p => cases p <;> rfl
  | _ => rfl

lemma toPart_toValue : p.toValue.toPart = p := by
  cases p with
  | placeholder p => cases p <;> rfl
  | _ => rfl

lemma oddContent?_toValue : Value.oddContent? p.toValue = none := by
  cases p with
  | placeholder p => cases p <;> rfl
  | _ => rfl

lemma exists_meet (digits places : Nat) :
    ∃ places', Value.meet digits places p.toValue = .ok places' := by
  rw [Value.meet, isPlaceholder_toValue]
  cases p with
  | placeholder p =>
    refine ⟨places + 1, ?_⟩
    by_cases h : digits ≤ places
    · cases p <;> simp only [bind, Except.bind, isPlaceholder, if_pos h] <;> rfl
    · simp only [bind, Except.bind, isPlaceholder, if_neg h]
      rfl
  | _ => exact ⟨places, rfl⟩

end Part

namespace Value

variable (parts : List Part) (digits : List Char)

lemma exists_foldlM_meet (count places : Nat) :
    ∃ places', (parts.map Part.toValue).foldlM (meet count) places = .ok places' := by
  induction parts generalizing places with
  | nil => exact ⟨places, rfl⟩
  | cons p rest ih =>
    obtain ⟨places', hmeet⟩ := p.exists_meet count places
    rw [List.map_cons, List.foldlM_cons, hmeet]
    exact ih places'

lemma join_toValue (tallied joined : List Char) :
    join (parts.map Part.toValue) tallied joined = .ok joined := by
  have hnone : (parts.map Part.toValue).findSome? oddContent? = none := by
    simp [Part.oddContent?_toValue]
  rw [join, hnone]

lemma map_toPart_toValue : (parts.map Part.toValue).map toPart = parts := by
  rw [List.map_map]
  exact List.map_id'' Part.toPart_toValue parts

theorem layoutWhole_toValue (grouped : Bool) :
    layoutWhole digits (parts.map Part.toValue) grouped =
      .ok (FormatCode.layoutWhole digits parts grouped) := by
  obtain ⟨places, hmeet⟩ := exists_foldlM_meet parts.reverse digits.length 0
  rw [List.map_reverse] at hmeet
  rw [layoutWhole, anyM_map_eq Part.isPlaceholder_toValue, hmeet, join_toValue, map_toPart_toValue]
  rfl

theorem layoutFraction_toValue : layoutFraction digits (parts.map Part.toValue) =
    .ok (FormatCode.layoutFraction digits parts) := by
  obtain ⟨places, hmeet⟩ := exists_foldlM_meet parts digits.length 0
  have hplaceholders : (parts.map Part.toValue).mapM isPlaceholder =
      .ok (parts.map Part.isPlaceholder) := by
    rw [mapM_eq_ok_iff, List.forall₂_map_left_iff, List.forall₂_map_right_iff, List.forall₂_same]
    exact fun p _ => p.isPlaceholder_toValue
  rw [layoutFraction, hplaceholders, hmeet, join_toValue, map_toPart_toValue]
  rfl

lemma joinLiterals_toValue :
    joinLiterals (parts.map Part.toValue) = .ok (parts.flatMap Part.text) := by
  rw [joinLiterals, join_toValue, List.flatMap_map]
  simp only [Part.toPart_toValue]

end Value

/-! ## Sections -/

namespace Condition

/-- A condition of a format accepts what its node accepts. -/
theorem accepts_toValue (c : Condition) (v : Value) : c.toValue.accepts v = c.accepts v := by
  unfold Value.accepts accepts
  split
  · rfl
  · have hoperator : c.toValue.property "operator" = .ok (.text c.operator) := rfl
    have hthreshold : c.toValue.property "threshold" = .ok c.threshold := rfl
    rw [hoperator, hthreshold]
    simp only [bind, Except.bind, Value.lookUp_text]
    cases Comparison.ofSymbol? c.operator <;> rfl

end Condition

namespace Section

variable (s : Section)

lemma property_condition :
    s.toValue.property "condition" = .ok (s.condition.elim .null Condition.toValue) := rfl

lemma property_parts : s.toValue.property "parts" = .ok (.tuple (s.parts.map Part.toValue)) := rfl

lemma hasCondition_toValue : s.toValue.hasCondition = .ok s.condition.isSome := by
  rw [Value.hasCondition, property_condition]
  cases s.condition <;> rfl

lemma claims_toValue (v : Value) : Value.claims v s.toValue = s.claims v := by
  rw [Value.claims, property_condition, claims]
  cases s.condition with
  | none => rfl
  | some c => exact c.accepts_toValue v

lemma splitAtFirst_isPoint : splitAtFirst Value.isPoint (s.parts.map Part.toValue) =
    (s.split.1.map Part.toValue, s.split.2.map (·.map Part.toValue)) := by
  have hpoint : (fun v => !Value.isPoint v) ∘ Part.toValue = fun p => !(p == Part.point) :=
    funext fun p => congrArg (!·) p.isPoint_toValue
  rw [splitAtFirst, List.takeWhile_map, List.dropWhile_map, hpoint, split, splitAtFirst]
  cases s.parts.dropWhile fun p => !(p == Part.point) <;> rfl

/-- The parts of a section are cut where those of its node are. -/
lemma exists_splitParts : ∃ before,
    Value.splitParts (.tuple (s.parts.map Part.toValue)) =
      .ok (before, s.split.2.map fun parts => .tuple (parts.map Part.toValue)) ∧
    before.iterate = .ok (s.split.1.map Part.toValue) := by
  have hiterate : (Value.tuple (s.parts.map Part.toValue)).iterate =
      .ok (s.parts.map Part.toValue) := rfl
  simp only [Value.splitParts, bind, Except.bind, hiterate, splitAtFirst_isPoint]
  cases hfraction : s.split.2 with
  | none =>
    refine ⟨_, rfl, ?_⟩
    by_cases hpoint : ∀ p ∈ s.parts, (p == Part.point) = false
    · rw [split, (splitAtFirst_of_notMem hpoint).1]
      rfl
    · -- A point would be followed by parts, though there may be none of them.
      rw [split, splitAtFirst] at hfraction
      split at hfraction
      · next hnil => exact absurd (by simpa using List.dropWhile_eq_nil_iff.mp hnil) hpoint
      · cases hfraction
  | some parts => exact ⟨_, rfl, rfl⟩

/-- The digits of a number are laid out among the nodes of the parts as among the parts. -/
lemma layout_toValue (negative : Bool) {written : Positional}
    (hwritten : written.negative = false) :
    s.toValue.layout negative written = .ok (s.layout negative written) := by
  have hgrouped : s.toValue.property "thousand_separator" = .ok (.bool s.grouped) := rfl
  obtain ⟨before, hsplit, hbefore⟩ := s.exists_splitParts
  rw [Value.layout, property_parts, hgrouped, layout]
  simp only [bind, Except.bind, hwritten, hsplit, hbefore, Value.layoutWhole_toValue,
    Value.countsAsTrue]
  cases s.split.2 with
  | none => cases negative <;> simp [pure, Except.pure]
  | some parts =>
    have hiterate : (Value.tuple (parts.map Part.toValue)).iterate =
      .ok (parts.map Part.toValue) := rfl
    cases negative <;> simp [pure, Except.pure, hiterate, Value.layoutFraction_toValue]

lemma scaled_toValue (n : Number) : n.magnitude.bind s.toValue.scaled = s.scaled n := by
  have hpercents : s.toValue.property "percent_count" = .ok (.int s.percentCount) := rfl
  rw [scaled]
  cases n.magnitude with
  | error e => rfl
  | ok m =>
    have hscaled : s.toValue.scaled m = if (Value.int s.percentCount).countsAsTrue then
        m.scaleBy (.int s.percentCount) else pure m := by
      rw [Value.scaled, hpercents]
      rfl
    refine hscaled.trans ?_
    by_cases hp : s.percentCount = 0
    · rw [hp]
      rfl
    · have htrue : (Value.int s.percentCount).countsAsTrue = true :=
        bne_iff_ne.mpr (Int.natCast_ne_zero.mpr hp)
      rw [if_pos htrue, Number.scaleBy_natCast]
      exact (if_neg hp).symm

theorem showNumber_toValue (n : Number) : s.toValue.showNumber n = s.showNumber n := by
  rw [Value.showNumber, showNumber]
  by_cases hn : n.isFinite
  · rw [if_pos hn, if_pos hn]
    cases n.compareZero .less with
    | error e => rfl
    | ok negative =>
      have hscaled := s.scaled_toValue n
      cases hm : n.magnitude with
      | error e =>
        rw [hm] at hscaled
        rw [← hscaled]
        rfl
      | ok magnitude =>
        rw [hm] at hscaled
        simp only [bind, Except.bind] at hscaled ⊢
        rw [hscaled]
        cases hm : s.scaled n with
        | error e => rfl
        | ok m =>
          dsimp only
          cases hwritten : m.positional with
          | error e => rfl
          | ok written =>
            exact s.layout_toValue negative (negative_of_scaled hn hm hwritten)
  · rw [if_neg hn, if_neg hn]

lemma showCell_toValue (v : CellValue) : s.toValue.showCell v = s.showCell v := by
  cases v with
  | text t =>
    rw [Value.showCell, property_parts]
    exact Value.joinLiterals_toValue s.parts
  | number n => exact s.showNumber_toValue n

/-- What a section makes of a value, unless its condition rejects the value. -/
theorem showThrough_toValue (v : CellValue) : s.toValue.showThrough v =
    match s.condition with
    | none => (s.showCell v).map fun text => ⟨text, .textOrNull s.color⟩
    | some c => (c.accepts v.toValue).bind fun accepted =>
      if accepted then (s.showCell v).map fun text => ⟨text, .textOrNull s.color⟩
      else v.plainText.map fun text => ⟨text, .null⟩ := by
  have hcolor : s.toValue.property "color" = .ok (.textOrNull s.color) := rfl
  have hcondition := s.property_condition
  rw [Value.showThrough, hcolor, showCell_toValue]
  cases hc : s.condition with
  | none =>
    rw [hc] at hcondition
    rw [hcondition]
    cases s.showCell v <;> rfl
  | some c =>
    rw [hc, Option.elim] at hcondition
    have haccepts : (if c.toValue.isNull then pure true else c.toValue.accepts v.toValue) =
        c.accepts v.toValue := c.accepts_toValue v.toValue
    simp only [bind, Except.bind, hcondition, haccepts]
    cases c.accepts v.toValue with
    | error e => rfl
    | ok accepted =>
      cases accepted with
      | true => cases s.showCell v <;> rfl
      | false => cases v.plainText <;> rfl

end Section

/-! ## Formats -/

namespace Format

variable (f : Format)

lemma firstWith_claims (v : Value) (sections : List Section) :
    Value.firstWith (Value.claims v) (sections.map Section.toValue) = firstClaim v sections := by
  induction sections with
  | nil => rfl
  | cons s rest ih => rw [List.map_cons, Value.firstWith, firstClaim, s.claims_toValue, ih]

/-- The section for a number is chosen by the conditions of nodes as by those of sections. -/
lemma choosePosition_toValue (s t : Section) (rest : List Section) (v : CellValue) :
    Value.choosePosition ((s :: t :: rest).map Section.toValue) v = choose ⟨s :: t :: rest⟩ v := by
  have hnone : ∀ s : Section,
      (s.toValue.hasCondition.map fun b => !b) = .ok s.condition.isNone := by
    intro s
    rw [s.hasCondition_toValue]
    cases s.condition <;> rfl
  rw [Value.choosePosition, Value.anyCondition, anyM_map_eq Section.hasCondition_toValue]
  cases v with
  | text _ =>
    rw [List.length_map]
    rfl
  | number n =>
    simp only [bind, Except.bind, choose, hasConditions]
    rw [firstWith_claims, firstWith_map_eq hnone, List.length_map, chooseByCondition]
    rfl

theorem chooseSection_toValue (v : CellValue) : f.toValue.chooseSection v =
    (f.choose v).map fun i => i.bind fun i => f.sections[i]?.map fun s => (i, s.toValue) := by
  obtain ⟨sections⟩ := f
  have hsections : (toValue ⟨sections⟩).property "sections" =
      .ok (.tuple (sections.map Section.toValue)) := rfl
  rw [Value.chooseSection, hsections]
  match sections with
  | [] => rfl
  | [s] => rfl
  | s :: t :: rest =>
    have hchoose := choosePosition_toValue s t rest v
    have hsized : (Value.tuple ((s :: t :: rest).map Section.toValue)).sized =
        .ok ((s :: t :: rest).map Section.toValue) := rfl
    rw [List.map_cons, List.map_cons] at hchoose hsized
    simp only [bind, Except.bind, hsized, List.map_cons, hchoose]
    cases choose ⟨s :: t :: rest⟩ v with
    | error e => rfl
    | ok position =>
      cases position with
      | none => rfl
      | some i =>
        dsimp only [Except.map, Option.bind_some]
        rw [← List.map_cons, ← List.map_cons, List.getD_eq_getElem?_getD, List.getElem?_map]
        cases (s :: t :: rest)[i]? <;> rfl

lemma lt_length_of_firstClaim {v : Value} {sections : List Section} {i : Nat}
    (h : firstClaim v sections = .ok (some i)) : i < sections.length := by
  induction sections generalizing i with
  | nil => cases h
  | cons s rest ih =>
    obtain ⟨claimed, -, h⟩ := Except.bind_eq_ok_iff.mp h
    cases claimed with
    | true =>
      obtain rfl := Option.some.inj (Except.ok.inj h)
      exact Nat.succ_pos _
    | false =>
      obtain ⟨position, hrest, h⟩ := Except.bind_eq_ok_iff.mp h
      obtain ⟨j, rfl, rfl⟩ := Option.map_eq_some_iff.mp (Except.ok.inj h)
      exact Nat.succ_lt_succ (ih hrest)

lemma lt_of_chooseBySign {count : Nat} (hcount : 2 ≤ count) {n : Number} {i : Nat}
    (h : chooseBySign count n = .ok i) : i < count := by
  rw [chooseBySign] at h
  split at h
  · obtain ⟨less, -, h⟩ := Except.bind_eq_ok_iff.mp h
    cases less <;> obtain rfl := Except.ok.inj h <;> omega
  · split at h
    · obtain ⟨greater, -, h⟩ := Except.bind_eq_ok_iff.mp h
      cases greater with
      | true =>
        obtain rfl := Except.ok.inj h
        omega
      | false =>
        obtain ⟨less, -, h⟩ := Except.bind_eq_ok_iff.mp h
        cases less <;> obtain rfl := Except.ok.inj h <;> omega
    · obtain rfl := Except.ok.inj h
      omega

/-- The position of the section for a value is that of a section. -/
lemma lt_length_of_choose {v : CellValue} {i : Nat} (h : f.choose v = .ok (some i)) :
    i < f.sections.length := by
  obtain ⟨sections⟩ := f
  match sections, v with
  | [], _ => cases h
  | [_], _ =>
    obtain rfl := Option.some.inj (Except.ok.inj h)
    exact Nat.one_pos
  | s :: t :: rest, .text _ =>
    obtain rfl := Option.some.inj (Except.ok.inj h)
    simp only [List.length_cons]
    split <;> omega
  | s :: t :: rest, .number n =>
    simp only [choose] at h
    split at h
    · obtain ⟨claimed, hclaim, h⟩ := Except.bind_eq_ok_iff.mp h
      cases claimed with
      | some j =>
        obtain rfl := Option.some.inj (Except.ok.inj h)
        exact lt_length_of_firstClaim hclaim
      | none => exact (List.findIdx?_eq_some_iff_getElem.mp (Except.ok.inj h)).1
    · obtain ⟨j, hsign, h⟩ := Except.map_eq_ok_iff.mp h
      obtain rfl := Option.some.inj h
      exact lt_of_chooseBySign (by simp) hsign

theorem choose_toValue (v : Value) : f.toValue.choose v = v.toCell.bind f.choose := by
  rw [Value.choose]
  cases v.toCell with
  | error e => rfl
  | ok cell =>
    simp only [bind, Except.bind]
    rw [chooseSection_toValue]
    cases hchoose : f.choose cell with
    | error e => rfl
    | ok position =>
      cases position with
      | none => rfl
      | some i =>
        have hi := f.lt_length_of_choose hchoose
        simp [Except.map, hi]

theorem display_toValue (v : Value) : f.toValue.display v = (f.render v).map Rendered.toShown := by
  rw [Value.display, render]
  cases v.toCell with
  | error e => rfl
  | ok cell =>
    simp only [bind, Except.bind]
    rw [chooseSection_toValue, renderCell, verdict, select]
    cases hchoose : f.choose cell with
    | error e => rfl
    | ok position =>
      cases hs : position.bind (f.sections[·]?) with
      | none =>
        have hnone :
            (position.bind fun i => f.sections[i]?.map fun s => (i, s.toValue)) = none := by
          cases position with
          | none => rfl
          | some i => exact Option.map_eq_none_iff.mpr hs
        simp only [Except.map, hs, hnone, bind, Except.bind, pure, Except.pure]
        cases cell.plainText <;> simp [Rendered.toShown, Value.textOrNull]
      | some s =>
        obtain ⟨i, rfl, hi⟩ := Option.bind_eq_some_iff.mp hs
        simp only [Except.map, Option.bind_some, hi, Option.map_some, s.showThrough_toValue, bind,
          Except.bind, pure, Except.pure]
        cases s.condition with
        | none =>
          dsimp only
          cases s.showCell cell <;> simp [Rendered.toShown]
        | some c =>
          dsimp only
          cases c.accepts cell.toValue with
          | error e => rfl
          | ok accepted =>
            cases accepted with
            | true =>
              simp only [if_true]
              cases s.showCell cell <;> simp [Rendered.toShown]
            | false => cases cell.plainText <;> simp [Rendered.toShown, Value.textOrNull]

end Format

/-! ## Tokens -/

lemma Token.isPlaceholder_toValue (t : Token) : t.toValue.isPlaceholder = .ok t.isPlaceholder := by
  cases t <;> rfl

def Draft.toAssembly (d : Draft) : Assembly where
  finished := d.finished.map Section.toValue
  condition := d.current.condition.elim .null Condition.toValue
  color := .textOrNull d.current.color
  parts := d.parts.map Part.toValue
  percentCount := d.current.percentCount
  grouped := d.current.grouped
  scale := d.current.scale
  scientific := .textOrNull d.current.scientific

namespace Assembly

lemma pushLiterals_eq (a : Assembly) (chars : List Value) : a.pushLiterals chars =
    { a with parts := a.parts ++ chars.map fun char => Value.node .literalPart [char] } := by
  induction chars generalizing a with
  | nil => simp [pushLiterals]
  | cons char rest ih =>
    rw [pushLiterals, List.foldl_cons]
    refine (ih _).trans ?_
    simp [push]

lemma standsForDigit_toValue (t : Option Token) :
    standsForDigit (t.elim .null Token.toValue) = .ok (t.any Token.isPlaceholder) := by
  cases t with
  | none => rfl
  | some t =>
    have hnull : t.toValue.isNull = false := by cases t <;> rfl
    rw [Option.elim, standsForDigit, hnull]
    exact t.isPlaceholder_toValue

variable (d : Draft)

lemma push_toAssembly (p : Part) {kind : NodeKind} {fields : List Value}
    (h : p.toValue = .node kind fields) :
    d.toAssembly.push kind fields = (d.push p).toAssembly := by
  simp [push, Draft.push, Draft.toAssembly, h]

/-- Text is added by what does not count as false, which is text that is not empty. -/
lemma pushText_toAssembly (text : String) :
    (if (Value.text text).countsAsTrue then d.toAssembly.pushLiterals [.text text]
      else d.toAssembly) = (d.pushText text).toAssembly := by
  rw [Value.countsAsTrue, Draft.pushText]
  cases text.isEmpty with
  | true => rfl
  | false => exact push_toAssembly d (.literal text) rfl

lemma pushCharacters_toAssembly (text : String) :
    d.toAssembly.pushLiterals (text.toList.map fun c => .text (String.ofList [c])) =
      (d.pushCharacters text).toAssembly := by
  rw [pushLiterals_eq]
  simp only [Draft.toAssembly, Draft.pushCharacters, List.map_map, Assembly.mk.injEq, true_and,
    and_true]
  refine Array.toList_inj.mp ?_
  rw [Array.toList_appendList, Array.toList_map, Array.toList_map, Array.toList_appendList,
    List.map_append, List.map_map]
  rfl

lemma finish_toAssembly : d.toAssembly.finish = d.finish.toAssembly := by
  simp [finish, Draft.finish, Draft.toAssembly, atHand, Draft.atHand, Section.toValue,
    Value.textOrNull]

lemma addComma_toAssembly (before : Option Token) (after : List Token) :
    d.toAssembly.addComma (before.elim .null Token.toValue) (after.map Token.toValue) =
      .ok (d.addComma before after).toAssembly := by
  have hhead : (after.map Token.toValue).headD .null = after.head?.elim .null Token.toValue := by
    cases after <;> rfl
  unfold addComma
  simp only [hhead, standsForDigit_toValue, anyM_map_eq Token.isPlaceholder_toValue, bind,
    Except.bind]
  cases before with
  | none => rfl
  | some b =>
    cases b with
    | placeholder mark =>
      cases hnext : after.head?.any Token.isPlaceholder with
      | true =>
        simp [Draft.addComma, Token.isPlaceholder, hnext, Draft.toAssembly, pure, Except.pure]
      | false =>
        cases hlater : after.any Token.isPlaceholder <;>
          simp [Draft.addComma, Token.isPlaceholder, hnext, hlater, Draft.toAssembly, pure,
            Except.pure]
    | literal text => exact congrArg Except.ok (push_toAssembly d (.literal ",") rfl)
    | _ => rfl

lemma add_toAssembly (before : Option Token) (after : List Token) (t : Token) :
    d.toAssembly.add (before.elim .null Token.toValue) (after.map Token.toValue) t.toValue =
      (d.add before after t).map Draft.toAssembly := by
  cases t with
  | sectionSeparator => exact congrArg Except.ok (finish_toAssembly d)
  | decimalPoint => exact congrArg Except.ok (push_toAssembly d .point rfl)
  | percentMark =>
    exact congrArg Except.ok (push_toAssembly { d with
      current := { d.current with percentCount := d.current.percentCount + 1 } } .percent rfl)
  | thousandSep => exact addComma_toAssembly d before after
  | placeholder mark =>
    have hadd : d.toAssembly.add (before.elim .null Token.toValue) (after.map Token.toValue)
        (Token.placeholder mark).toValue =
          ((Value.text mark).lookUp Placeholder.ofMark? .unknownPlaceholder).map fun p =>
            d.toAssembly.push (partKind p) [] := rfl
    rw [hadd, Value.lookUp_text, Draft.add]
    cases Placeholder.ofMark? mark with
    | none => rfl
    | some p =>
      refine congrArg Except.ok (push_toAssembly d (.placeholder p) ?_)
      cases p <;> rfl
  | literal text | escape text => exact congrArg Except.ok (pushText_toAssembly d text)
  | quoted text => exact congrArg Except.ok (pushCharacters_toAssembly d text)
  | _ => rfl

lemma addAll_toAssembly (before : Option Token) (tokens : List Token) :
    d.toAssembly.addAll (before.elim .null Token.toValue) (tokens.map Token.toValue) =
      (d.addAll before tokens).map Draft.toAssembly := by
  induction tokens generalizing d before with
  | nil => rfl
  | cons t rest ih =>
    rw [List.map_cons, addAll, Draft.addAll, add_toAssembly]
    cases d.add before rest t with
    | error e => rfl
    | ok next => exact ih next (some t)

lemma format_toAssembly : d.toAssembly.format = Format.toValue ⟨d.sections⟩ := by
  have hempty : d.toAssembly.parts.isEmpty = d.parts.isEmpty := by
    rw [Draft.toAssembly, Array.isEmpty, Array.isEmpty, Array.size_map]
  rw [format, Draft.sections, hempty, finish_toAssembly, Format.toValue]
  split <;> simp [Draft.toAssembly]

end Assembly

/-- Nodes of tokens are assembled to the node of the format of the tokens. -/
theorem Value.assemble_eq {v : Value} {tokens : List Token}
    (h : v.iterate = .ok (tokens.map Token.toValue)) :
    v.assemble = (Format.ofTokens tokens).map Format.toValue := by
  have hdraft : ({} : Assembly) = Draft.toAssembly {} := by
    simp [Draft.toAssembly, Value.textOrNull]
  have hassembly := Assembly.addAll_toAssembly {} none tokens
  rw [Option.elim] at hassembly
  rw [assemble, h, hdraft, Format.ofTokens]
  simp only [bind, Except.bind]
  rw [hassembly]
  cases Draft.addAll {} none tokens with
  | error e => rfl
  | ok d => exact congrArg Except.ok (Assembly.format_toAssembly d)

end FormatCode
