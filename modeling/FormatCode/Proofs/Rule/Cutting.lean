import FormatCode.Rule
import Mathlib.Data.List.TakeWhile
import Mathlib.Logic.Relation

/-!
# How rules cut a text

The scanner makes one pass over its rules after the other: the first rule that matches at the
beginning of what is left takes its piece off. If the passes come to the end of the text, the pieces
make up the text, each is what the first rule to match there takes, and no other pieces are like
that. They do come to the end if no rule takes nothing and the last one takes any character.

## Main definitions

* `Rule.Matches`, `Rule.Takes` — the texts that a rule matches, and the one that it takes off.
* `Rule.Cut` — pieces of which each is taken off by the first rule that matches.
* `Rule.Progress`, `Rule.pass` — a scan at work, and one pass over the rules.
* `Rule.CutsAll` — rules by which every text is cut.

## Main statements

* `Rule.firstMatch?_eq_some_iff` — the first rule that matches, and how far it goes.
* `Rule.scan_eq_some_iff` — the scanner finds the pieces that cut a text, and no others cut it.
* `Rule.reaches_end_iff` — the passes come to an end with these pieces.
* `Rule.scan_unique_cut` — rules that cut all texts cut each of them in one way.
-/

namespace FormatCode

namespace Rule

variable {rule : Rule} {rules : List Rule} {i width : Nat} {piece rest s : List Char}
  {pieces : List (Nat × List Char)}

/-! ## What a rule takes -/

inductive Matches : Rule → List Char → Prop
  | text (s : List Char) : Matches (.text s) s
  | one {chars : CharClass} {c : Char} : chars.contains c → Matches (.one chars) [c]
  | many {chars : CharClass} {cs : List Char} :
    cs ≠ [] → (∀ c ∈ cs, chars.contains c) → Matches (.many chars) cs

def MatchesAt (rule : Rule) (s : List Char) : Prop :=
  ∃ piece rest, s = piece ++ rest ∧ rule.Matches piece

/-- Whether a rule matches a piece which the text after it does not let it extend. -/
structure Takes (rule : Rule) (piece rest : List Char) : Prop where
  isMatch : rule.Matches piece
  stops : ∀ chars, rule = .many chars → ∀ c ∈ rest.head?, ¬ chars.contains c

lemma width?_eq_none_iff : rule.width? s = none ↔ ¬ rule.MatchesAt s := by
  have hhead : ∀ chars : CharClass, s.head?.any chars.contains ↔
      ∃ c rest, s = c :: rest ∧ chars.contains c := by
    intro chars
    cases s <;> simp
  constructor
  · rintro hnone ⟨piece, rest, rfl, hmatch⟩
    cases hmatch with
    | text => simp [width?] at hnone
    | one hc => simp [width?, hc] at hnone
    | many hne hcs =>
      obtain ⟨c, cs, rfl⟩ := List.exists_cons_of_ne_nil hne
      simp [width?, hcs c (List.mem_cons_self ..)] at hnone
  · intro hnone
    cases rule with
    | text t =>
      refine if_neg fun hbegins => hnone ?_
      obtain ⟨rest, hrest⟩ := List.isPrefixOf_iff_prefix.mp hbegins
      exact ⟨t, rest, hrest.symm, .text t⟩
    | one chars =>
      refine if_neg fun hany => hnone ?_
      obtain ⟨c, rest, hs, hc⟩ := (hhead chars).mp hany
      exact ⟨[c], rest, hs, .one hc⟩
    | many chars =>
      refine if_neg fun hany => hnone ?_
      obtain ⟨c, rest, hs, hc⟩ := (hhead chars).mp hany
      exact ⟨[c], rest, hs, .many (List.cons_ne_nil c []) (List.forall_mem_singleton.mpr hc)⟩

/-- A rule that matches takes a piece off the text. -/
lemma exists_takes_of_width? (h : rule.width? s = some width) :
    ∃ piece rest, s = piece ++ rest ∧ piece.length = width ∧ rule.Takes piece rest := by
  cases rule with
  | text t =>
    obtain ⟨hbegins, rfl⟩ : t <+: s ∧ t.length = width := by simpa [width?] using h
    obtain ⟨rest, rfl⟩ := hbegins
    exact ⟨t, rest, rfl, rfl, .text t, nofun⟩
  | one chars =>
    obtain ⟨hany, rfl⟩ : s.head?.any chars.contains ∧ 1 = width := by simpa [width?] using h
    cases s with
    | nil => cases hany
    | cons c rest => exact ⟨[c], rest, rfl, rfl, .one hany, nofun⟩
  | many chars =>
    obtain ⟨hany, rfl⟩ : s.head?.any chars.contains ∧
      (s.takeWhile chars.contains).length = width := by simpa [width?] using h
    refine ⟨_, _, List.takeWhile_append_dropWhile.symm, rfl, .many ?_ ?_, ?_⟩
    · cases s with
      | nil => cases hany
      | cons c rest =>
        have hc : chars.contains c := hany
        simp [hc]
    · exact fun c hc => List.mem_takeWhile_imp hc
    · rintro _ ⟨⟩ c hc
      have hnot := List.head?_dropWhile_not chars.contains s
      rw [Option.mem_def.mp hc] at hnot
      simpa using hnot

/-- A rule takes no other piece than it does. -/
lemma Takes.width?_eq (h : rule.Takes piece rest) :
    rule.width? (piece ++ rest) = some piece.length := by
  obtain ⟨hmatch, hstops⟩ := h
  cases hmatch with
  | text => simp [width?]
  | one hc => simp [width?, hc]
  | @many chars _ hne hcs =>
    have hrest : rest.takeWhile chars.contains = [] := by
      cases rest with
      | nil => rfl
      | cons c rest => exact List.takeWhile_cons_of_neg (hstops chars rfl c rfl)
    have htake : (piece ++ rest).takeWhile chars.contains = piece := by
      rw [List.takeWhile_append_of_pos hcs, hrest, List.append_nil]
    obtain ⟨c, cs, rfl⟩ := List.exists_cons_of_ne_nil hne
    have hc : chars.contains c := hcs c (List.mem_cons_self ..)
    rw [width?, htake]
    exact if_pos hc

/-! ## The first rule that matches -/

structure IsFirst (rules : List Rule) (i : Nat) (piece rest : List Char) : Prop where
  exists_takes : ∃ rule, rules[i]? = some rule ∧ rule.Takes piece rest
  not_matchesAt : ∀ j < i, ∀ rule, rules[j]? = some rule → ¬ rule.MatchesAt (piece ++ rest)

lemma firstMatch?_eq_some_iff : firstMatch? rules s = some (i, width) ↔
    (∃ rule, rules[i]? = some rule ∧ rule.width? s = some width) ∧
      ∀ j < i, ∀ rule, rules[j]? = some rule → rule.width? s = none := by
  induction rules generalizing i with
  | nil => simp [firstMatch?]
  | cons first rules ih =>
    rw [firstMatch?]
    cases hfirst : first.width? s with
    | some w =>
      cases i with
      | zero => simp [hfirst]
      | succ i =>
        simp only [Option.some.injEq, Prod.mk.injEq, reduceCtorEq, false_and, false_iff, not_and]
        intro _ hnone
        have := hnone 0 (Nat.succ_pos i) first rfl
        simp [hfirst] at this
    | none =>
      cases i with
      | zero => simp [hfirst]
      | succ i =>
        have hshift : (∀ j < i + 1, ∀ rule, (first :: rules)[j]? = some rule →
            rule.width? s = none) ↔ ∀ j < i, ∀ rule, rules[j]? = some rule →
              rule.width? s = none := by
          rw [Nat.forall_lt_succ_left]
          simp [hfirst]
        rw [hshift, List.getElem?_cons_succ, ← ih]
        simp

lemma exists_firstMatch? (h : ∃ rule ∈ rules, rule.MatchesAt s) :
    ∃ i width, firstMatch? rules s = some (i, width) := by
  induction rules with
  | nil => simp at h
  | cons first rules ih =>
    rw [firstMatch?]
    cases hfirst : first.width? s with
    | some w => exact ⟨0, w, rfl⟩
    | none =>
      have hnot := width?_eq_none_iff.mp hfirst
      obtain ⟨i, w, hrest⟩ := ih (by simpa [hnot] using h)
      exact ⟨i + 1, w, by rw [hrest]; rfl⟩

/-- The first rule that matches takes its piece off the text. -/
lemma exists_isFirst (h : firstMatch? rules s = some (i, width)) :
    ∃ piece rest, s = piece ++ rest ∧ piece.length = width ∧ IsFirst rules i piece rest := by
  obtain ⟨⟨rule, hrule, hwidth⟩, hbefore⟩ := firstMatch?_eq_some_iff.mp h
  obtain ⟨piece, rest, rfl, hlength, htakes⟩ := exists_takes_of_width? hwidth
  refine ⟨piece, rest, rfl, hlength, ⟨rule, hrule, htakes⟩, fun j hj other hother => ?_⟩
  exact width?_eq_none_iff.mp (hbefore j hj other hother)

lemma IsFirst.firstMatch?_eq (h : IsFirst rules i piece rest) :
    firstMatch? rules (piece ++ rest) = some (i, piece.length) := by
  obtain ⟨⟨rule, hrule, htakes⟩, hbefore⟩ := h
  refine firstMatch?_eq_some_iff.mpr ⟨⟨rule, hrule, htakes.width?_eq⟩, fun j hj other hother => ?_⟩
  exact width?_eq_none_iff.mpr (hbefore j hj other hother)

/-! ## The pieces of a text -/

/-- Pieces that make up a text, none of them empty, each with the position of its rule: the first
that matches where the piece begins. -/
inductive Cut (rules : List Rule) : List (Nat × List Char) → List Char → Prop
  | nil : Cut rules [] []
  | cons {i : Nat} {piece rest : List Char} {pieces : List (Nat × List Char)} :
    piece ≠ [] → IsFirst rules i piece rest → Cut rules pieces rest →
    Cut rules ((i, piece) :: pieces) (piece ++ rest)

lemma Cut.flatten_eq (h : Cut rules pieces s) : (pieces.map Prod.snd).flatten = s := by
  induction h with
  | nil => rfl
  | cons _ _ _ ih => rw [List.map_cons, List.flatten_cons, ih]

/-- The first piece is scanned, and then the others. -/
lemma scan_append (hne : piece ≠ [])
    (hfirst : firstMatch? rules (piece ++ rest) = some (i, piece.length)) :
    scan rules (piece ++ rest) = (scan rules rest).map ((i, piece) :: ·) := by
  obtain ⟨c, tail, rfl⟩ := List.exists_cons_of_ne_nil hne
  rw [List.cons_append, List.length_cons] at hfirst
  rw [scan, List.cons_append, scanAfter, hfirst]
  simp [scanAfter_eq]

theorem Cut.scan_eq (h : Cut rules pieces s) : scan rules s = some pieces := by
  induction h with
  | nil => rfl
  | cons hne hfirst _ ih => rw [scan_append hne hfirst.firstMatch?_eq, ih, Option.map_some]

/-- A text that is scanned to its end is cut into the pieces found. -/
theorem cut_of_scan (h : scan rules s = some pieces) : Cut rules pieces s := by
  induction hn : s.length using Nat.strong_induction_on generalizing s pieces with
  | _ n ih =>
    cases s with
    | nil =>
      obtain rfl := Option.some.inj h
      exact .nil
    | cons c tail =>
      have hscan := h
      rw [scan, scanAfter] at hscan
      split at hscan
      · next i width hfirst =>
        obtain ⟨piece, rest, hs, hlength, hisFirst⟩ := exists_isFirst hfirst
        have hne : piece ≠ [] := List.ne_nil_of_length_pos (by omega)
        rw [hs] at h hn ⊢
        rw [scan_append hne hisFirst.firstMatch?_eq] at h
        obtain ⟨others, hothers, rfl⟩ := Option.map_eq_some_iff.mp h
        refine .cons hne hisFirst (ih rest.length ?_ hothers rfl)
        rw [List.length_append] at hn
        omega
      · cases hscan
      · cases hscan

/-- The scanner finds the pieces that cut a text, and no others cut it. -/
theorem scan_eq_some_iff : scan rules s = some pieces ↔ Cut rules pieces s :=
  ⟨cut_of_scan, Cut.scan_eq⟩

/-! ## One pass after the other -/

/-- A scan at work: the pieces so far, and what is left of the text. -/
structure Progress where
  pieces : List (Nat × List Char)
  rest : List Char

/-- One pass over the rules, which is made while something is left. If no rule matches, the next
pass finds everything as it was. -/
def pass (rules : List Rule) (p : Progress) : Option Progress :=
  if p.rest = [] then none
  else match firstMatch? rules p.rest with
    | some (i, width) => some ⟨p.pieces ++ [(i, p.rest.take width)], p.rest.drop width⟩
    | none => some p

def Reaches (rules : List Rule) : Progress → Progress → Prop :=
  Relation.ReflTransGen fun p q => pass rules p = some q

lemma pass_append (hne : piece ≠ []) (hfirst : IsFirst rules i piece rest) :
    pass rules ⟨pieces, piece ++ rest⟩ = some ⟨pieces ++ [(i, piece)], rest⟩ := by
  rw [pass, if_neg (List.append_ne_nil_of_left_ne_nil hne rest), hfirst.firstMatch?_eq]
  simp

lemma Cut.reaches_end (h : Cut rules pieces s) (before : List (Nat × List Char)) :
    Reaches rules ⟨before, s⟩ ⟨before ++ pieces, []⟩ := by
  induction h generalizing before with
  | nil => rw [List.append_nil]; exact .refl
  | @cons i piece rest pieces hne hfirst _ ih =>
    refine .head (pass_append hne hfirst) ?_
    have hrest := ih (before ++ [(i, piece)])
    rwa [List.append_assoc, List.singleton_append] at hrest

/-- A piece that is taken off where a text is cut is the first one of the cut. -/
lemma Cut.of_pass {before : List (Nat × List Char)} {q : Progress}
    (hpass : pass rules ⟨before, s⟩ = some q) (hq : Cut rules pieces q.rest) :
    ∃ others, q.pieces ++ pieces = before ++ others ∧ Cut rules others s := by
  unfold pass at hpass
  split at hpass
  · cases hpass
  · next hleft =>
    split at hpass
    · next i width hfirst =>
      obtain rfl := Option.some.inj hpass
      obtain ⟨piece, rest, rfl, rfl, hisFirst⟩ := exists_isFirst hfirst
      dsimp only at hq ⊢
      rw [List.drop_left] at hq
      rw [List.take_left]
      refine ⟨(i, piece) :: pieces, by simp, .cons ?_ hisFirst hq⟩
      -- An empty piece leaves the text as it was, and the cut goes on with a piece that is not.
      rintro rfl
      cases hq with
      | nil => exact hleft rfl
      | cons hne hnext _ =>
        have hsame := hnext.firstMatch?_eq.symm.trans hfirst
        have hlength := (Prod.mk.inj (Option.some.inj hsame)).2
        exact hne (List.eq_nil_of_length_eq_zero hlength)
    · obtain rfl := Option.some.inj hpass
      exact ⟨pieces, rfl, hq⟩

/-- The passes come to the end of a text with the pieces that cut it, and with no others. -/
theorem reaches_end_iff : Reaches rules ⟨[], s⟩ ⟨pieces, []⟩ ↔ Cut rules pieces s := by
  refine ⟨fun h => ?_, fun h => h.reaches_end []⟩
  have hsplit : ∀ p, Reaches rules p ⟨pieces, []⟩ →
      ∃ others, pieces = p.pieces ++ others ∧ Cut rules others p.rest := by
    intro p hp
    induction hp using Relation.ReflTransGen.head_induction_on with
    | refl => exact ⟨[], (List.append_nil _).symm, .nil⟩
    | head hpass _ ih =>
      obtain ⟨others, heq, hcut⟩ := ih
      obtain ⟨others', heq', hcut'⟩ := Cut.of_pass hpass hcut
      exact ⟨others', heq.trans heq', hcut'⟩
  obtain ⟨others, rfl, hcut⟩ := hsplit _ h
  exact hcut

/-! ## Rules that cut all texts -/

/-- Whether no rule matches the empty text and the last rule matches any one character. -/
structure CutsAll (rules : List Rule) : Prop where
  text_ne_nil : ∀ t, .text t ∈ rules → t ≠ []
  exists_last : ∃ chars, rules.getLast? = some (.one chars) ∧ ∀ c, chars.contains c

lemma Takes.piece_ne_nil (h : rule.Takes piece rest) (hrule : ∀ t, rule = .text t → t ≠ []) :
    piece ≠ [] := by
  cases h.isMatch with
  | text => exact hrule piece rfl
  | one => exact List.cons_ne_nil _ _
  | many hne => exact hne

/-- Something is taken off every text that is not empty. -/
lemma CutsAll.exists_isFirst (h : CutsAll rules) (hs : s ≠ []) :
    ∃ i piece rest, s = piece ++ rest ∧ piece ≠ [] ∧ IsFirst rules i piece rest := by
  obtain ⟨htext, chars, hlast, hany⟩ := h
  obtain ⟨c, tail, rfl⟩ := List.exists_cons_of_ne_nil hs
  have hmatch : (Rule.one chars).MatchesAt (c :: tail) := ⟨[c], tail, rfl, .one (hany c)⟩
  obtain ⟨i, width, hfirst⟩ := exists_firstMatch? ⟨_, List.mem_of_getLast? hlast, hmatch⟩
  obtain ⟨piece, rest, hsplit, -, hisFirst⟩ := Rule.exists_isFirst hfirst
  refine ⟨i, piece, rest, hsplit, ?_, hisFirst⟩
  obtain ⟨rule, hrule, htakes⟩ := hisFirst.exists_takes
  apply htakes.piece_ne_nil
  rintro t rfl
  exact htext t (List.mem_of_getElem? hrule)

theorem CutsAll.exists_cut (h : CutsAll rules) (s : List Char) : ∃ pieces, Cut rules pieces s := by
  induction hn : s.length using Nat.strong_induction_on generalizing s with
  | _ n ih =>
    by_cases hs : s = []
    · exact ⟨[], hs ▸ .nil⟩
    · obtain ⟨i, piece, rest, rfl, hne, hfirst⟩ := h.exists_isFirst hs
      have hlength := List.length_pos_iff.mpr hne
      rw [List.length_append] at hn
      obtain ⟨pieces, hcut⟩ := ih rest.length (by omega) rest rfl
      exact ⟨(i, piece) :: pieces, .cons hne hfirst hcut⟩

/-- Rules of which none takes nothing and the last takes any character come to the end of every text
one pass after the other. The pieces found make up the text, none is empty, each is taken by the
first rule that matches where it begins, and no other pieces are like that. -/
theorem scan_unique_cut (h : CutsAll rules) (source : String) :
    ∃ pieces, scan rules source.toList = some pieces ∧
      scanValue rules (.text source) = .ok pieces ∧
      Reaches rules ⟨[], source.toList⟩ ⟨pieces, []⟩ ∧
      (pieces.map Prod.snd).flatten = source.toList ∧
      Cut rules pieces source.toList ∧
      ∀ others, Cut rules others source.toList → others = pieces := by
  obtain ⟨pieces, hcut⟩ := h.exists_cut source.toList
  have hvalue : scanValue rules (.text source) = .ok pieces := by
    change Except.ok ((scan rules source.toList).getD []) = _
    rw [hcut.scan_eq, Option.getD_some]
  refine ⟨pieces, hcut.scan_eq, hvalue, reaches_end_iff.mpr hcut, hcut.flatten_eq, hcut, ?_⟩
  intro others hothers
  exact Option.some.inj (hothers.scan_eq.symm.trans hcut.scan_eq)

/-- The text of a rule that comes first is taken, even where a later rule would take more. -/
theorem scan_unique_cut_words :
    let rules : List Rule := [.many .digit, .text ['a', 'b'], .many .lower, .one .any]
    let pieces := [(0, ['1', '2']), (1, ['a', 'b']), (2, ['c']), (3, ['+'])]
    CutsAll rules ∧ scanValue rules (.text "12abc+") = .ok pieces ∧
      ∀ others, Cut rules others "12abc+".toList → others = pieces := by
  intro rules pieces
  have hcuts : CutsAll rules := by
    refine ⟨fun t ht => ?_, .any, rfl, fun _ => rfl⟩
    obtain rfl : t = ['a', 'b'] := by simpa [rules] using ht
    exact List.cons_ne_nil _ _
  obtain ⟨found, hscan, hvalue, -, -, -, hunique⟩ := scan_unique_cut hcuts "12abc+"
  obtain rfl : found = pieces := Option.some.inj (hscan.symm.trans (by decide))
  exact ⟨hcuts, hvalue, hunique⟩

end Rule

end FormatCode
