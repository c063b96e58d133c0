import FormatCode.Format.OfTokens
import Mathlib.Data.List.Basic

/-!
# Formats piece by piece

The tokens between two separators make up a section of their own. What a token does to its section
depends on the token before it and on those after it, and only a comma asks for them. So a format is
read piece by piece, and what the other pieces hold matters at most to the scale.

## Main definitions

* `Token.IsKnown` — whether a token is one that can be read.
* `Section.add`, `Section.addAll` — what one token and a piece do to a section.
* `Section.ofPieces` — the sections of the pieces of a format.
* `Section.unscaled` — a section without its scale.

## Main statements

* `exists_pieces` — every list of tokens is made of pieces.
* `Format.ofTokens_pieces` — the format of pieces holds their sections, the last one if it has
  parts.
* `Section.unscaled_addAll` — what follows a piece matters at most to the scale.
-/

namespace FormatCode

/-! ## What a token does to a section -/

namespace Token

def IsKnown : Token → Prop
  | placeholder mark => (Placeholder.ofMark? mark).isSome
  | _ => True

/-- The parts that a token adds, after the token before it. -/
def parts (before : Option Token) : Token → List Part
  | decimalPoint => [.point]
  | percentMark => [.percent]
  | literal text | escape text => if text.isEmpty then [] else [.literal text]
  | quoted text => text.toList.map fun c => .literal (String.ofList [c])
  | placeholder mark => (Placeholder.ofMark? mark).toList.map .placeholder
  | thousandSep =>
    match before with
    | some (literal _) => [.literal ","]
    | _ => []
  | _ => []

def groups (before : Option Token) (after : List Token) : Token → Bool
  | thousandSep => before.any isPlaceholder && after.head?.any isPlaceholder
  | _ => false

def scales (before : Option Token) (after : List Token) : Token → Bool
  | thousandSep => before.any isPlaceholder && !after.any isPlaceholder
  | _ => false

/-- A comma after a placeholder is not shown. -/
lemma parts_thousandSep {before : Option Token} (h : before.any isPlaceholder) :
    thousandSep.parts before = [] := by
  cases before with
  | none => rfl
  | some t => cases t <;> first | rfl | cases h

end Token

namespace Section

def add (s : Section) (before : Option Token) (after : List Token) (t : Token) : Section where
  condition := match t with
    | .condition operator threshold => some ⟨operator, threshold⟩
    | _ => s.condition
  color := match t with
    | .color name => name
    | _ => s.color
  parts := s.parts ++ t.parts before
  percentCount := match t with
    | .percentMark => s.percentCount + 1
    | _ => s.percentCount
  grouped := s.grouped || t.groups before after
  scale := if t.scales before after then s.scale * 1000 else s.scale
  scientific := match t with
    | .scientific sign => sign
    | _ => s.scientific

def addAll (s : Section) (before : Option Token) : (ts tail : List Token) → Section
  | [], _ => s
  | t :: ts, tail => (s.add before (ts ++ tail) t).addAll (some t) ts tail

end Section

namespace Draft

/-- A comma groups, scales or is shown, by its neighbours. -/
lemma addComma_eq (d : Draft) (before : Option Token) (after : List Token) :
    d.addComma before after =
      { d with
        current := { d.current with
          grouped := d.current.grouped || Token.thousandSep.groups before after
          scale := if Token.thousandSep.scales before after then d.current.scale * 1000
            else d.current.scale }
        parts := d.parts ++ (Token.thousandSep.parts before).toArray } := by
  unfold addComma
  split
  · next mark =>
    have hbefore : (some (Token.placeholder mark)).any Token.isPlaceholder = true := rfl
    -- A placeholder at once after the comma is one of those after it.
    have hany : after.head?.any Token.isPlaceholder → after.any Token.isPlaceholder := by
      cases after <;> simp_all
    by_cases hnext : after.head?.any Token.isPlaceholder
    · simp [Token.groups, Token.scales, Token.parts, hbefore, hnext, hany hnext]
    · by_cases hafter : after.any Token.isPlaceholder
      · simp [Token.groups, Token.scales, Token.parts, hnext, hafter]
      · simp [Token.groups, Token.scales, Token.parts, hbefore, hnext, hafter]
  · simp [Token.groups, Token.scales, Token.parts, Token.isPlaceholder, push]
  · next hplaceholder hliteral =>
    have hbefore : before.any Token.isPlaceholder = false := by
      cases before with
      | none => rfl
      | some t => cases t <;> simp_all [Token.isPlaceholder]
    have hparts : Token.thousandSep.parts before = [] := by
      simp only [Token.parts]
    simp [Token.groups, Token.scales, hbefore, hparts]

@[simp] lemma finished_finish (d : Draft) :
    d.finish.finished.toList = d.finished.toList ++ [d.atHand] := by
  simp [finish]

@[simp] lemma atHand_finish (d : Draft) : d.finish.atHand = {} := rfl

/-- A token that is no separator changes the section at hand only. -/
theorem add_of_isKnown (d : Draft) (before : Option Token) (after : List Token) {t : Token}
    (hknown : t.IsKnown) (hseparator : t ≠ .sectionSeparator) :
    ∃ d', d.add before after t = .ok d' ∧ d'.finished = d.finished ∧
      d'.atHand = d.atHand.add before after t := by
  cases t with
  | sectionSeparator => exact absurd rfl hseparator
  | placeholder mark =>
    obtain ⟨p, hp⟩ := Option.isSome_iff_exists.mp hknown
    refine ⟨d.push (.placeholder p), by simp [add, hp], rfl, ?_⟩
    simp [atHand, push, Section.add, Token.parts, Token.groups, Token.scales, hp]
  | literal text | escape text =>
    refine ⟨d.pushText text, rfl, by unfold pushText push; split <;> rfl, ?_⟩
    by_cases htext : text.isEmpty <;>
      simp [atHand, pushText, push, Section.add, Token.parts, Token.groups, Token.scales, htext]
  | thousandSep =>
    refine ⟨d.addComma before after, rfl, by rw [addComma_eq], ?_⟩
    rw [addComma_eq, atHand, Array.toList_append]
    rfl
  | _ =>
    refine ⟨_, rfl, rfl, ?_⟩
    simp [atHand, push, pushCharacters, Section.add, Token.parts, Token.groups, Token.scales]

/-- A piece changes the section at hand only. -/
theorem addAll_append {ts : List Token} (hknown : ∀ t ∈ ts, t.IsKnown)
    (hseparator : .sectionSeparator ∉ ts) (d : Draft) (before : Option Token)
    (tail : List Token) :
    ∃ (d' : Draft) (before' : Option Token), d.addAll before (ts ++ tail) = d'.addAll before' tail ∧
      d'.finished = d.finished ∧ d'.atHand = d.atHand.addAll before ts tail := by
  induction ts generalizing d before with
  | nil => exact ⟨d, before, rfl, rfl, rfl⟩
  | cons t ts ih =>
    rw [List.forall_mem_cons] at hknown
    rw [List.mem_cons, not_or] at hseparator
    obtain ⟨d₁, hadd, hfinished, hatHand⟩ :=
      d.add_of_isKnown before (ts ++ tail) hknown.1 (Ne.symm hseparator.1)
    obtain ⟨d₂, before', hrun, hfinished', hatHand'⟩ := ih hknown.2 hseparator.2 d₁ (some t)
    refine ⟨d₂, before', ?_, hfinished'.trans hfinished, ?_⟩
    · rw [List.cons_append, addAll, hadd]
      exact hrun
    · rw [hatHand', hatHand, Section.addAll]

lemma sections_eq (d : Draft) :
    d.sections = d.finished.toList ++ if d.atHand.parts = [] then [] else [d.atHand] := by
  unfold sections
  by_cases h : d.parts = #[] <;> simp [h, atHand]

end Draft

/-! ## The sections of the pieces -/

/-- The tokens of some pieces, each after a separator. -/
def followingTokens (pieces : List (List Token)) : List Token :=
  pieces.flatMap fun ts => .sectionSeparator :: ts

lemma followingTokens_cons (ts : List Token) (pieces : List (List Token)) :
    followingTokens (ts :: pieces) = .sectionSeparator :: (ts ++ followingTokens pieces) := by
  rw [followingTokens, List.flatMap_cons]
  rfl

lemma followingTokens_append (pieces pieces' : List (List Token)) :
    followingTokens (pieces ++ pieces') = followingTokens pieces ++ followingTokens pieces' :=
  List.flatMap_append

lemma sublist_append_followingTokens {ts us : List Token} {pieces : List (List Token)}
    (hus : us ∈ ts :: pieces) : us.Sublist (ts ++ followingTokens pieces) := by
  obtain rfl | hus := List.mem_cons.mp hus
  · exact List.sublist_append_left us _
  · have hpiece : (Token.sectionSeparator :: us).Sublist (followingTokens pieces) :=
      List.sublist_flatten_of_mem (List.mem_map_of_mem hus)
    exact (List.sublist_cons_self _ us).trans (hpiece.trans (List.sublist_append_right ts _))

lemma mem_append_followingTokens {ts us : List Token} {pieces : List (List Token)} {t : Token}
    (hus : us ∈ ts :: pieces) (ht : t ∈ us) : t ∈ ts ++ followingTokens pieces :=
  (sublist_append_followingTokens hus).mem ht

/-- The sections of some pieces, the first of them after a given token. -/
def Section.ofPieces : (before : Option Token) → (pieces : List (List Token)) → List Section
  | _, [] => []
  | before, ts :: pieces =>
    Section.addAll {} before ts (followingTokens pieces) ::
      ofPieces (some .sectionSeparator) pieces

def dropBlankLast : List Section → List Section
  | [] => []
  | [s] => if s.parts = [] then [] else [s]
  | s :: t :: rest => s :: dropBlankLast (t :: rest)

theorem Draft.addAll_pieces {ts : List Token} {pieces : List (List Token)}
    (hknown : ∀ us ∈ ts :: pieces, ∀ t ∈ us, t.IsKnown)
    (hseparator : ∀ us ∈ ts :: pieces, .sectionSeparator ∉ us) (d : Draft)
    (before : Option Token) (hd : d.atHand = {}) :
    (d.addAll before (ts ++ followingTokens pieces)).map Draft.sections =
      .ok (d.finished.toList ++ dropBlankLast (Section.ofPieces before (ts :: pieces))) := by
  induction pieces generalizing ts d before with
  | nil =>
    obtain ⟨d', before', hrun, hfinished, hatHand⟩ :=
      addAll_append (hknown ts (by simp)) (hseparator ts (by simp)) d before []
    rw [followingTokens, List.flatMap_nil, hrun, addAll, Except.map, sections_eq, hfinished,
      hatHand, hd]
    rfl
  | cons us pieces ih =>
    obtain ⟨d', before', hrun, hfinished, hatHand⟩ :=
      addAll_append (hknown ts (by simp)) (hseparator ts (by simp)) d before
        (followingTokens (us :: pieces))
    have hrest := ih (fun vs hvs => hknown vs (List.mem_cons_of_mem _ hvs))
      (fun vs hvs => hseparator vs (List.mem_cons_of_mem _ hvs)) d'.finish
      (some .sectionSeparator) d'.atHand_finish
    rw [hd] at hatHand
    rw [hrun]
    refine hrest.trans ?_
    rw [finished_finish, hfinished, hatHand, List.append_assoc]
    rfl

/-- The format of pieces holds the sections of the pieces, the last one only if it has parts. -/
theorem Format.ofTokens_pieces (ts : List Token) (pieces : List (List Token))
    (hknown : ∀ us ∈ ts :: pieces, ∀ t ∈ us, t.IsKnown)
    (hseparator : ∀ us ∈ ts :: pieces, .sectionSeparator ∉ us) :
    Format.ofTokens (ts ++ followingTokens pieces) =
      .ok ⟨dropBlankLast (Section.ofPieces none (ts :: pieces))⟩ := by
  have h := Draft.addAll_pieces hknown hseparator {} none rfl
  unfold Format.ofTokens
  cases hrun : ({} : Draft).addAll none (ts ++ followingTokens pieces) with
  | error e => simp [hrun, Except.map] at h
  | ok d =>
    rw [hrun] at h
    simpa [Except.map] using h

/-- Every list of tokens is made of pieces. -/
lemma exists_pieces (ts : List Token) :
    ∃ (us : List Token) (pieces : List (List Token)), ts = us ++ followingTokens pieces ∧
      ∀ vs ∈ us :: pieces, .sectionSeparator ∉ vs := by
  induction ts with
  | nil => exact ⟨[], [], rfl, by simp⟩
  | cons t ts ih =>
    obtain ⟨us, pieces, rfl, hseparator⟩ := ih
    by_cases ht : t = .sectionSeparator
    · exact ⟨[], us :: pieces, by rw [ht]; rfl, by simpa using hseparator⟩
    · refine ⟨t :: us, pieces, rfl, ?_⟩
      rw [List.forall_mem_cons] at hseparator ⊢
      exact ⟨by simpa [Ne.symm ht] using hseparator.1, hseparator.2⟩

lemma dropBlankLast_cons (s : Section) {rest : List Section} (h : rest ≠ []) :
    dropBlankLast (s :: rest) = s :: dropBlankLast rest := by
  cases rest with
  | nil => exact absurd rfl h
  | cons t rest => rfl

lemma dropBlankLast_append (sections : List Section) {rest : List Section} (h : rest ≠ []) :
    dropBlankLast (sections ++ rest) = sections ++ dropBlankLast rest := by
  induction sections with
  | nil => rfl
  | cons s sections ih =>
    rw [List.cons_append, dropBlankLast_cons s (by simp [h]), ih, List.cons_append]

/-- Leaving out the last section keeps the others at their places. -/
lemma isPrefix_dropBlankLast (sections : List Section) : dropBlankLast sections <+: sections := by
  fun_induction dropBlankLast sections with
  | case1 => exact List.prefix_rfl
  | case2 => exact List.nil_prefix
  | case3 => exact List.prefix_rfl
  | case4 s t rest ih => exact (List.prefix_cons_inj s).mpr ih

lemma mem_of_mem_dropBlankLast {sections : List Section} {s : Section}
    (h : s ∈ dropBlankLast sections) : s ∈ sections :=
  (isPrefix_dropBlankLast sections).mem h

/-! ## What the other pieces matter to -/

namespace Section

def unscaled (s : Section) : Section := { s with scale := 1 }

lemma unscaled_add {s s' : Section} (h : s.unscaled = s'.unscaled) {t : Token}
    {before before' : Option Token} {after after' : List Token}
    (hparts : t.parts before = t.parts before')
    (hgroups : t.groups before after = t.groups before' after') :
    (s.add before after t).unscaled = (s'.add before' after' t).unscaled := by
  simp only [unscaled, Section.mk.injEq] at h
  obtain ⟨hcondition, hcolor, hpart, hpercent, hgrouped, -, hscientific⟩ := h
  simp only [unscaled, add, hcondition, hcolor, hpart, hpercent, hgrouped, hscientific, hparts,
    hgroups]

/-- What follows a piece matters at most to its scale, if it begins with no placeholder. -/
theorem unscaled_addAll {s s' : Section} (h : s.unscaled = s'.unscaled) (before : Option Token)
    (ts : List Token) {tail tail' : List Token} (htail : tail.head?.any Token.isPlaceholder = false)
    (htail' : tail'.head?.any Token.isPlaceholder = false) :
    (s.addAll before ts tail).unscaled = (s'.addAll before ts tail').unscaled := by
  induction ts generalizing s s' before with
  | nil => exact h
  | cons t ts ih =>
    have hnext : (ts ++ tail).head?.any Token.isPlaceholder =
        (ts ++ tail').head?.any Token.isPlaceholder := by
      cases ts <;> simp [htail, htail']
    have hgroups : t.groups before (ts ++ tail) = t.groups before (ts ++ tail') := by
      cases t <;> simp only [Token.groups, hnext]
    exact ih (unscaled_add h rfl hgroups) (some t)

/-- A piece asks of the token before it only whether it is a placeholder and whether a comma is shown
after it. -/
theorem addAll_congr_before {before before' : Option Token}
    (hplaceholder : before.any Token.isPlaceholder = before'.any Token.isPlaceholder)
    (hcomma : Token.thousandSep.parts before = Token.thousandSep.parts before') (s : Section)
    (ts tail : List Token) : s.addAll before ts tail = s.addAll before' ts tail := by
  cases ts with
  | nil => rfl
  | cons t ts =>
    have hparts : t.parts before = t.parts before' := by
      cases t with
      | thousandSep => exact hcomma
      | _ => rfl
    have hgroups : t.groups before (ts ++ tail) = t.groups before' (ts ++ tail) := by
      cases t <;> simp only [Token.groups, hplaceholder]
    have hscales : t.scales before (ts ++ tail) = t.scales before' (ts ++ tail) := by
      cases t <;> simp only [Token.scales, hplaceholder]
    simp only [addAll, add, hparts, hgroups, hscales]

end Section

lemma head?_followingTokens (pieces : List (List Token)) :
    (followingTokens pieces).head?.any Token.isPlaceholder = false := by
  cases pieces <;> rfl

/-- A piece after a separator is read as one at the beginning. -/
lemma Section.ofPieces_cons (ts : List Token) (pieces : List (List Token)) :
    ofPieces none (ts :: pieces) =
      addAll {} none ts (followingTokens pieces) :: ofPieces none pieces := by
  rw [ofPieces]
  congr 1
  cases pieces with
  | nil => rfl
  | cons us pieces =>
    rw [ofPieces, ofPieces]
    congr 1
    apply addAll_congr_before <;> rfl

/-- A section of some pieces is that of one of them, and no placeholder follows that one at once. -/
lemma Section.exists_piece_of_mem {pieces : List (List Token)} {s : Section}
    (h : s ∈ ofPieces none pieces) :
    ∃ ts ∈ pieces, ∃ tail, tail.head?.any Token.isPlaceholder = false ∧
      s = Section.addAll {} none ts tail := by
  induction pieces with
  | nil => cases h
  | cons ts pieces ih =>
    rw [ofPieces_cons, List.mem_cons] at h
    obtain rfl | h := h
    · exact ⟨ts, List.mem_cons_self .., followingTokens pieces, head?_followingTokens pieces, rfl⟩
    · obtain ⟨us, hus, hpiece⟩ := ih h
      exact ⟨us, List.mem_cons_of_mem _ hus, hpiece⟩

/-- The sections of pieces are those that the pieces have alone, but for the scales. -/
theorem Section.map_unscaled_ofPieces (pieces : List (List Token)) :
    (ofPieces none pieces).map unscaled =
      pieces.map fun ts => (Section.addAll {} none ts []).unscaled := by
  induction pieces with
  | nil => rfl
  | cons ts pieces ih =>
    rw [ofPieces_cons, List.map_cons, List.map_cons, ih]
    congr 1
    exact unscaled_addAll rfl none ts (head?_followingTokens pieces) rfl

/-- The sections of pieces before others are their own, but for the scales, and those of the others
stay as they are. -/
theorem Section.exists_ofPieces_append (pieces pieces' : List (List Token)) :
    ∃ sections, ofPieces none (pieces ++ pieces') = sections ++ ofPieces none pieces' ∧
      sections.map unscaled = (ofPieces none pieces).map unscaled := by
  induction pieces with
  | nil => exact ⟨[], rfl, rfl⟩
  | cons ts pieces ih =>
    obtain ⟨sections, hsections, hunscaled⟩ := ih
    refine ⟨addAll {} none ts (followingTokens (pieces ++ pieces')) :: sections, ?_, ?_⟩
    · rw [List.cons_append, ofPieces_cons, hsections, List.cons_append]
    · rw [ofPieces_cons, List.map_cons, List.map_cons, hunscaled]
      congr 1
      exact unscaled_addAll rfl none ts (head?_followingTokens _) (head?_followingTokens _)

end FormatCode
