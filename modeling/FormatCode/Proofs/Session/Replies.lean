import FormatCode.Session
import Mathlib.Data.List.Basic

/-!
# Replies do not depend on what was shown before

A cache that keeps only what is computed for its keys answers as the computation itself does, and
goes on keeping only that, whatever it is asked for. So each reply of a session is that to a call
made alone. What was shown before matters only to the record of reading a format: it is made when
the format is not kept.

## Main definitions

* `Cache.Faithful` — whether a cache keeps only what is computed for its keys.
* `Session.afterCalls` — a session after some calls.
* `showingEvents` — what showing a value puts on record.
* `Reply.IsAlone` — whether a reply is that to a call made alone, but for the record of reading.

## Main statements

* `Cache.Faithful.fetch` — a faithful cache gives what is computed, and stays faithful.
* `Session.isAlone_replies` — every reply of a session is that to a call made alone.
-/

namespace FormatCode

/-! ## Caches that keep what is computed -/

namespace Cache

variable {κ α ε : Type}

def Faithful (compute : κ → Except ε α) (c : Cache κ α) : Prop :=
  ∀ entry ∈ c.entries, compute entry.1 = .ok entry.2

/-- An empty cache keeps nothing that is not computed. -/
lemma faithful_empty (compute : κ → Except ε α) : ({} : Cache κ α).Faithful compute := nofun

variable [BEq κ] {c : Cache κ α}

/-- A request is counted as a hit if a result is kept for the key, and otherwise as a miss. -/
theorem counts_fetch (capacity : Nat) (compute : κ → Except ε α) (key : κ) :
    if c.contains key then
      (c.fetch capacity compute key).2.hits = c.hits + 1 ∧
        (c.fetch capacity compute key).2.misses = c.misses
    else
      (c.fetch capacity compute key).2.hits = c.hits ∧
        (c.fetch capacity compute key).2.misses = c.misses + 1 := by
  unfold contains fetch
  cases hkept : c.entries.lookup key with
  | some a => simp
  | none => cases compute key <;> simp

variable [LawfulBEq κ] {compute : κ → Except ε α}

lemma Faithful.of_lookup (h : c.Faithful compute) {key : κ} {a : α}
    (hkept : c.entries.lookup key = some a) : compute key = .ok a := by
  obtain ⟨newer, older, hentries, -⟩ := List.lookup_eq_some_iff.mp hkept
  exact h (key, a) (by simp [hentries])

/-- A faithful cache gives what is computed, and stays faithful. -/
theorem Faithful.fetch (h : c.Faithful compute) (capacity : Nat) (key : κ) :
    (c.fetch capacity compute key).1 = compute key ∧
      (c.fetch capacity compute key).2.Faithful compute := by
  unfold Cache.fetch
  cases hkept : c.entries.lookup key with
  | some a =>
    have hkey := h.of_lookup hkept
    refine ⟨hkey.symm, ?_⟩
    intro entry hentry
    obtain rfl | hentry := List.mem_cons.mp hentry
    · exact hkey
    · exact h entry (List.mem_of_mem_filter hentry)
  | none =>
    cases hkey : compute key with
    | error e => exact ⟨rfl, h⟩
    | ok a =>
      refine ⟨rfl, ?_⟩
      intro entry hentry
      -- Whatever is pushed out at the end, what stays is the new result or an old one.
      obtain rfl | hentry := List.mem_cons.mp (List.mem_of_mem_take hentry)
      · exact hkey
      · exact h entry hentry

end Cache

/-! ## What is put on record -/

/-- Whether an event is one of reading a format, and not of showing a value through it. -/
def Event.isReading : Event → Bool
  | inertBracket _ => true
  | _ => false

def Reply.readings (reply : Reply) : List Event := reply.events.filter Event.isReading

/-- What showing a value through the format of a text puts on record, apart from the record of
reading the format. -/
def showingEvents (value format : Value) : List Event :=
  match format.toText.bind Format.parse with
  | .ok f => f.events value
  | .error _ => []

lemma filter_isReading_showingEvents (value format : Value) :
    (showingEvents value format).filter Event.isReading = [] := by
  unfold showingEvents Format.events
  cases format.toText.bind Format.parse with
  | error e => rfl
  | ok f =>
    cases value.toCell with
    | error e => rfl
    | ok cell =>
      dsimp only
      cases f.verdict cell with
      | error e => rfl
      | ok verdict => cases verdict <;> rfl

lemma filter_isReading_inertBracket (contents : List String) :
    (contents.map Event.inertBracket).filter Event.isReading = contents.map .inertBracket := by
  rw [List.filter_eq_self]
  intro event hevent
  obtain ⟨content, -, rfl⟩ := List.mem_map.mp hevent
  rfl

/-! ## Replies to calls made alone -/

namespace Session

def CountsHit (before after : Session) : Prop :=
  after.hits = before.hits + 1 ∧ after.misses = before.misses

def CountsMiss (before after : Session) : Prop :=
  after.hits = before.hits ∧ after.misses = before.misses + 1

def afterCalls (s : Session) (calls : List (Value × Value)) : Session :=
  calls.foldl (fun s call => (s.render call.1 call.2).2) s

end Session

/-- Whether a reply is that to a call made alone: the same result, and the same record of showing
the value. The format is on record as read when the call counts as a miss, and not when it counts
as a hit. A format that is not text does not count and leaves the session as it is. -/
structure Reply.IsAlone (reply : Reply) (value format : Value) (before after : Session) : Prop where
  result_eq : reply.result = FormatCode.render value format
  events_eq : reply.events = reply.readings ++ showingEvents value format
  hit_or_miss (text : String) : format.toText = .ok text →
    before.CountsHit after ∨ before.CountsMiss after
  readings_of_hit : before.CountsHit after → reply.readings = []
  readings_of_miss (text : String) : format.toText = .ok text → before.CountsMiss after →
    reply.readings = (inertBrackets text).map .inertBracket
  of_not_text (e : Fault) : format.toText = .error e → reply.events = [] ∧ after = before

namespace Session

variable {s : Session}

lemma CountsHit.not_countsMiss {after : Session} (h : s.CountsHit after) :
    ¬ s.CountsMiss after := by
  rintro ⟨hhits, -⟩
  have := h.1
  omega

lemma filter_isReading_readingEvents (s : Session) (text : String) :
    (s.readingEvents text).filter Event.isReading = s.readingEvents text := by
  unfold readingEvents
  split
  · rfl
  · exact filter_isReading_inertBracket _

/-- A call whose format is text asks a faithful session for the format. -/
lemma render_text (h : s.Faithful Format.parse) (value : Value) (text : String) :
    (s.render value (.text text)).1.result = FormatCode.render value (.text text) ∧
      (s.render value (.text text)).1.events =
        s.readingEvents text ++ showingEvents value (.text text) ∧
      (s.render value (.text text)).2 = (s.fetch cacheCapacity Format.parse text).2 := by
  have hfetch := (h.fetch cacheCapacity text).1
  rcases hpair : s.fetch cacheCapacity Format.parse text with ⟨result, after⟩
  rw [hpair] at hfetch
  subst hfetch
  cases hparse : Format.parse text <;>
    simp [render, FormatCode.render, showingEvents, Value.toText, hpair, hparse, bind, Except.bind]

/-- A call whose format is text counts as a hit if the format is kept, and otherwise as a miss. -/
lemma counts_render (h : s.Faithful Format.parse) (value : Value) (text : String) :
    (s.contains text ∧ s.CountsHit (s.render value (.text text)).2) ∨
      (¬ s.contains text ∧ s.CountsMiss (s.render value (.text text)).2) := by
  have hcounts := s.counts_fetch cacheCapacity Format.parse text
  rw [← (render_text h value text).2.2] at hcounts
  by_cases hkept : s.contains text
  · rw [if_pos hkept] at hcounts
    exact .inl ⟨hkept, hcounts⟩
  · rw [if_neg hkept] at hcounts
    exact .inr ⟨hkept, hcounts⟩

/-- A call whose format is not text fails as the call made alone does, and leaves the session. -/
lemma isAlone_render_of_not_text (s : Session) (value : Value) {format : Value} {e : Fault}
    (hformat : format.toText = .error e) :
    (s.render value format).1.IsAlone value format s (s.render value format).2 ∧
      (s.render value format).2 = s := by
  have hrender : s.render value format = (⟨.error e, []⟩, s) := by
    simp [render, hformat]
  have halone : FormatCode.render value format = .error e := by
    simp [FormatCode.render, hformat, bind, Except.bind]
  have hshowing : showingEvents value format = [] := by
    simp [showingEvents, hformat, Except.bind]
  rw [hrender]
  refine ⟨⟨halone.symm, by rw [hshowing]; rfl, ?_, fun _ => rfl, ?_, fun _ _ => ⟨rfl, rfl⟩⟩, rfl⟩
  · simp [hformat]
  · simp [hformat]

/-- One call to a faithful session: the reply is that to the call made alone, and the session stays
faithful. -/
theorem isAlone_render (h : s.Faithful Format.parse) (value format : Value) :
    (s.render value format).1.IsAlone value format s (s.render value format).2 ∧
      (s.render value format).2.Faithful Format.parse := by
  cases hformat : format.toText with
  | error e =>
    obtain ⟨halone, hafter⟩ := s.isAlone_render_of_not_text value hformat
    exact ⟨halone, hafter.symm ▸ h⟩
  | ok text =>
    obtain rfl : format = .text text := by
      cases format <;> simp_all [Value.toText]
    obtain ⟨hresult, hevents, hafter⟩ := render_text h value text
    have hcounts := counts_render h value text
    have hreadings : (s.render value (.text text)).1.readings = s.readingEvents text := by
      rw [Reply.readings, hevents, List.filter_append, filter_isReading_readingEvents,
        filter_isReading_showingEvents, List.append_nil]
    refine ⟨⟨hresult, by rw [hreadings, hevents], ?_, ?_, ?_, by simp [hformat]⟩,
      hafter ▸ (h.fetch cacheCapacity text).2⟩
    · intro _ _
      exact hcounts.imp And.right And.right
    · intro hhit
      obtain ⟨hkept, -⟩ | ⟨-, hmiss⟩ := hcounts
      · rw [hreadings, readingEvents, if_pos hkept]
      · exact absurd hmiss hhit.not_countsMiss
    · intro text' htext hmiss
      obtain rfl := Except.ok.inj (hformat.symm.trans htext)
      obtain ⟨-, hhit⟩ | ⟨hkept, -⟩ := hcounts
      · exact absurd hmiss hhit.not_countsMiss
      · rw [hreadings, readingEvents, if_neg hkept]

lemma afterCalls_append (s : Session) (calls calls' : List (Value × Value)) :
    s.afterCalls (calls ++ calls') = (s.afterCalls calls).afterCalls calls' :=
  List.foldl_append

/-- A faithful session stays faithful whatever calls are made. -/
theorem faithful_afterCalls (h : s.Faithful Format.parse) (calls : List (Value × Value)) :
    (s.afterCalls calls).Faithful Format.parse := by
  induction calls generalizing s with
  | nil => exact h
  | cons call calls ih => exact ih (isAlone_render h call.1 call.2).2

/-- The reply to a call is that of the session after the calls before it. -/
lemma getElem?_replies (s : Session) (earlier later : List (Value × Value))
    (value format : Value) :
    (s.replies (earlier ++ (value, format) :: later))[earlier.length]? =
      some ((s.afterCalls earlier).render value format) := by
  induction earlier generalizing s with
  | nil => rfl
  | cons call earlier ih => exact ih (s.render call.1 call.2).2

/-- Whatever calls were made before since the cache was empty, and whatever became of them, the
reply to a call is that to the call made alone, apart from the record of reading the format. -/
theorem isAlone_replies (earlier later : List (Value × Value)) (value format : Value) :
    ∃ (reply : Reply) (after : Session),
      (replies {} (earlier ++ (value, format) :: later))[earlier.length]? = some (reply, after) ∧
      after = afterCalls {} (earlier ++ [(value, format)]) ∧
      reply.IsAlone value format (afterCalls {} earlier) after := by
  have hfaithful := faithful_afterCalls (Cache.faithful_empty Format.parse) earlier
  have halone := (isAlone_render hfaithful value format).1
  refine ⟨_, _, getElem?_replies {} earlier later value format, ?_, halone⟩
  rw [afterCalls_append]
  rfl

end Session

end FormatCode
