import FormatCode.Proofs.Session.Replies
import Mathlib.Data.Finset.Card
import Mathlib.Data.List.Dedup

/-!
# Which formats are kept

A cache keeps the results for the keys used last, in the order of their last use. So whether a
result is kept depends on how many other keys have been used since its key was used last. Keys for
which there is no result are not among them, and neither count nor change the order.

## Main definitions

* `recentFirst` — keys in the order of their last use, the last one first.
* `Session.usedTexts`, `Session.usedFormats` — the texts that calls ask for, and the formats among
  them.
* `Session.IsKept` — whether a format has been used and few others since.
* `Session.FollowsRecency` — what a call does to a session, told by the calls before.

## Main statements

* `mem_take_recentFirst_iff` — a key is among the last ones if few others have been used since.
* `Cache.keys_fetch` — a request for a key makes it the one used last.
* `Session.followsRecency_replies` — every call follows recency.
-/

namespace FormatCode

/-! ## Keys in the order of their last use -/

section recentFirst

variable {κ : Type}

/-- A key that has been used was used last at some point. -/
lemma exists_last_use {used : List κ} {key : κ} (h : key ∈ used) :
    ∃ older since, used = older ++ key :: since ∧ key ∉ since := by
  obtain ⟨since, older, hused, hsince⟩ := List.eq_append_cons_of_mem (List.mem_reverse.mpr h)
  refine ⟨older.reverse, since.reverse, ?_, mt List.mem_reverse.mp hsince⟩
  rw [← List.reverse_inj, hused]
  simp

lemma mem_take_append_cons {since rest : List κ} {key : κ} (h : key ∉ since) (n : Nat) :
    key ∈ (since ++ key :: rest).take n ↔ since.length < n := by
  have hsince : key ∉ since.take n := mt List.mem_of_mem_take h
  rw [List.take_append, List.mem_append, or_iff_right hsince]
  obtain hle | hlt := le_or_gt n since.length
  · rw [Nat.sub_eq_zero_of_le hle, List.take_zero]
    exact iff_of_false List.not_mem_nil (not_lt.mpr hle)
  · obtain ⟨k, hk⟩ : ∃ k, n - since.length = k + 1 := ⟨n - since.length - 1, by omega⟩
    rw [hk, List.take_succ_cons]
    exact iff_of_true (List.mem_cons_self ..) hlt

variable [DecidableEq κ]

/-- Keys in the order of their last use, the last one first, each of them once. -/
def recentFirst (used : List κ) : List κ := used.dedup.reverse

lemma length_recentFirst (used : List κ) : (recentFirst used).length = used.toFinset.card := by
  rw [recentFirst, List.length_reverse, List.card_toFinset]

lemma mem_recentFirst {used : List κ} {key : κ} : key ∈ recentFirst used ↔ key ∈ used := by
  rw [recentFirst, List.mem_reverse, List.mem_dedup]

/-- A key that is used comes to the front. -/
lemma recentFirst_concat (used : List κ) (key : κ) :
    recentFirst (used ++ [key]) = key :: (recentFirst used).erase key := by
  -- Where keys are repeated the last one stays, so the induction is from the front.
  have hdedup : (used ++ [key]).dedup = used.dedup.erase key ++ [key] := by
    induction used with
    | nil => rfl
    | cons k used ih =>
      rw [List.cons_append]
      by_cases hk : k ∈ used
      · rw [List.dedup_cons_of_mem hk, List.dedup_cons_of_mem (List.mem_append_left _ hk), ih]
      · rw [List.dedup_cons_of_notMem hk]
        obtain rfl | hne := eq_or_ne k key
        · have hkept : k ∉ used.dedup := mt List.mem_dedup.mp hk
          rw [List.dedup_cons_of_mem (by simp), ih, List.erase_cons_head,
            List.erase_of_not_mem hkept]
        · rw [List.dedup_cons_of_notMem (by simp [hk, hne]), ih,
            List.erase_cons_tail (by simpa using hne), List.cons_append]
  have hreverse : (used.dedup.erase key).reverse = used.dedup.reverse.erase key := by
    rw [(List.nodup_dedup used).erase_eq_filter,
      (List.nodup_reverse.mpr (List.nodup_dedup used)).erase_eq_filter, List.filter_reverse]
  rw [recentFirst, hdedup, List.reverse_append, hreverse]
  rfl

/-- The keys used since a key was used last come before it. -/
lemma recentFirst_append_cons (older : List κ) {since : List κ} {key : κ} (h : key ∉ since) :
    ∃ rest, recentFirst (older ++ key :: since) = recentFirst since ++ key :: rest := by
  obtain ⟨front, hfront⟩ := List.suffix_union_right older (key :: since.dedup)
  refine ⟨front.reverse, ?_⟩
  rw [recentFirst, List.dedup_append, List.dedup_cons_of_notMem h, ← hfront, List.reverse_append,
    List.reverse_cons, List.append_assoc]
  rfl

/-- A key is among those used last if few others have been used since. -/
theorem mem_take_recentFirst_iff {used : List κ} {key : κ} {n : Nat} :
    key ∈ (recentFirst used).take n ↔ ∃ older since, used = older ++ key :: since ∧
      key ∉ since ∧ since.toFinset.card < n := by
  have hlast : ∀ older since, used = older ++ key :: since → key ∉ since →
      (key ∈ (recentFirst used).take n ↔ since.toFinset.card < n) := by
    rintro older since rfl hsince
    obtain ⟨rest, hrest⟩ := recentFirst_append_cons older hsince
    rw [hrest, mem_take_append_cons (mt mem_recentFirst.mp hsince), length_recentFirst]
  constructor
  · intro h
    obtain ⟨older, since, hused, hsince⟩ :=
      exists_last_use (mem_recentFirst.mp (List.mem_of_mem_take h))
    exact ⟨older, since, hused, hsince, (hlast older since hused hsince).mp h⟩
  · rintro ⟨older, since, hused, hsince, hcard⟩
    exact (hlast older since hused hsince).mpr hcard

/-- Of the keys that are kept, the one used again is taken out of its place. -/
lemma erase_take {keys : List κ} {key : κ} {n : Nat} (h : key ∈ keys.take (n + 1)) :
    (keys.take (n + 1)).erase key = (keys.erase key).take n := by
  induction keys generalizing n with
  | nil => cases h
  | cons k keys ih =>
    obtain rfl | hne := eq_or_ne k key
    · rw [List.take_succ_cons, List.erase_cons_head, List.erase_cons_head]
    · have hbeq : ¬ (k == key) = true := by simpa using hne
      rw [List.take_succ_cons, List.mem_cons, or_iff_right hne.symm] at h
      cases n with
      | zero => cases h
      | succ n =>
        rw [List.take_succ_cons, List.erase_cons_tail hbeq, List.erase_cons_tail hbeq,
          List.take_succ_cons, ih h]

/-- A key that is not kept leaves those in their places that are. -/
lemma take_erase_of_notMem {keys : List κ} {key : κ} {n : Nat} (h : key ∉ keys.take n) :
    (keys.erase key).take n = keys.take n := by
  induction keys generalizing n with
  | nil => rfl
  | cons k keys ih =>
    cases n with
    | zero => rfl
    | succ n =>
      rw [List.take_succ_cons, List.mem_cons, not_or] at h
      rw [List.erase_cons_tail (by simpa using Ne.symm h.1), List.take_succ_cons,
        List.take_succ_cons, ih h.2]

end recentFirst

/-! ## What a cache keeps -/

namespace Cache

variable {κ α ε : Type} {c : Cache κ α} {compute : κ → Except ε α} {key : κ}

def keys (c : Cache κ α) : List κ := c.entries.map Prod.fst

lemma size_eq : c.size = c.keys.length := (List.length_map _).symm

variable [DecidableEq κ]

lemma contains_iff : c.contains key ↔ key ∈ c.keys := by
  rw [contains, List.lookup_isSome_iff, keys, List.mem_map]
  simp only [beq_iff_eq, @eq_comm _ key]

/-- A request that fails leaves what is kept as it is. -/
theorem entries_fetch_of_error (h : c.Faithful compute) (capacity : Nat) {e : ε}
    (hkey : compute key = .error e) :
    ¬ c.contains key ∧ (c.fetch capacity compute key).2.entries = c.entries := by
  cases hkept : c.entries.lookup key with
  | some a =>
    rw [h.of_lookup hkept] at hkey
    cases hkey
  | none =>
    refine ⟨by simp [contains, hkept], ?_⟩
    simp [fetch, hkept, hkey]

/-- A request that succeeds makes its key the one used last. -/
theorem keys_fetch {capacity : Nat} {used : List κ}
    (hkeys : c.keys = (recentFirst used).take capacity) {a : α} (hkey : compute key = .ok a) :
    (c.fetch capacity compute key).2.keys = (recentFirst (used ++ [key])).take capacity := by
  rw [recentFirst_concat]
  cases hkept : c.entries.lookup key with
  | some b =>
    have hmem : key ∈ (recentFirst used).take capacity := by
      rw [← hkeys, ← contains_iff, contains, hkept]
      rfl
    obtain ⟨n, rfl⟩ : ∃ n, capacity = n + 1 := by
      cases capacity with
      | zero => cases hmem
      | succ n => exact ⟨n, rfl⟩
    have hnodup : ((recentFirst used).take (n + 1)).Nodup :=
      (List.nodup_reverse.mpr (List.nodup_dedup used)).take
    have hrest : (c.entries.filter fun entry => !(entry.1 == key)).map Prod.fst =
        ((recentFirst used).take (n + 1)).erase key := by
      rw [hnodup.erase_eq_filter, ← hkeys, keys, List.filter_map]
      rfl
    simp only [fetch, hkept, keys, List.map_cons, hrest, List.take_succ_cons, erase_take hmem]
  | none =>
    -- The key is new, so that the one used longest ago may have to go.
    have hnot : key ∉ (recentFirst used).take capacity := by
      rw [← hkeys, ← contains_iff, contains, hkept]
      exact Bool.false_ne_true
    simp only [fetch, hkept, hkey, keys, List.map_take, List.map_cons]
    cases capacity with
    | zero => rfl
    | succ n =>
      have hfew : key ∉ (recentFirst used).take n :=
        fun h => hnot (List.take_subset_take_left _ n.le_succ h)
      rw [List.take_succ_cons, List.take_succ_cons, take_erase_of_notMem hfew]
      refine congrArg (key :: ·) (Eq.trans (congrArg (List.take n) hkeys) ?_)
      rw [List.take_take, Nat.min_eq_left n.le_succ]

/-- A key that has been requested with success is the first one kept. -/
theorem head?_entries_fetch (h : c.Faithful compute) {capacity : Nat} (hcapacity : 0 < capacity)
    {a : α} (hkey : compute key = .ok a) :
    (c.fetch capacity compute key).2.entries.head? = some (key, a) := by
  obtain ⟨n, rfl⟩ := Nat.exists_eq_add_one.mpr hcapacity
  cases hkept : c.entries.lookup key with
  | some b =>
    obtain rfl := Except.ok.inj ((h.of_lookup hkept).symm.trans hkey)
    simp [fetch, hkept]
  | none => simp [fetch, hkept, hkey]

end Cache

/-! ## Which formats a session keeps -/

namespace Session

def isFormat (text : String) : Bool := (Format.parse text).isOk

def usedTexts (calls : List (Value × Value)) : List String :=
  calls.filterMap fun call => call.2.toText.toOption

def usedFormats (calls : List (Value × Value)) : List String :=
  (usedTexts calls).filter isFormat

/-- Whether a text is a format that has been used, and fewer other formats than a session keeps have
been used since it was used last. -/
def IsKept (calls : List (Value × Value)) (text : String) : Prop :=
  isFormat text ∧ ∃ older since, usedTexts calls = older ++ text :: since ∧ text ∉ since ∧
    (since.filter isFormat).toFinset.card < cacheCapacity

/-- What a call does to a session, told by the calls before it. A format that is not text leaves the
session as it is. Any other call is a hit if its format is kept, and otherwise a miss, so that all
such calls are counted. The formats kept are those used last, in the order of their last use. A text
that is no format is a miss and changes nothing else; a format is the one used last from then on,
even if the value cannot be shown. -/
structure FollowsRecency (earlier : List (Value × Value)) (value format : Value)
    (before after : Session) : Prop where
  of_not_text (e : Fault) : format.toText = .error e → after = before
  hit_or_miss (text : String) : format.toText = .ok text →
    IsKept earlier text ∧ before.CountsHit after ∨ ¬ IsKept earlier text ∧ before.CountsMiss after
  counts_eq : after.hits + after.misses = (usedTexts (earlier ++ [(value, format)])).length
  keys_eq : after.keys =
    (recentFirst (usedFormats (earlier ++ [(value, format)]))).take cacheCapacity
  size_eq : after.size =
    min cacheCapacity (usedFormats (earlier ++ [(value, format)])).toFinset.card
  of_no_format (text : String) (e : Fault) : format.toText = .ok text →
    Format.parse text = .error e → before.CountsMiss after ∧ after.entries = before.entries
  of_format (text : String) (f : Format) : format.toText = .ok text → Format.parse text = .ok f →
    after.entries.head? = some (text, f) ∧ ∀ other, (before.render other format).2 = after

/-- What holds after some calls: all calls with a text are counted, and the formats used last are
kept. -/
structure HasSeen (s : Session) (calls : List (Value × Value)) : Prop where
  counts_eq : s.hits + s.misses = (usedTexts calls).length
  keys_eq : s.keys = (recentFirst (usedFormats calls)).take cacheCapacity

variable {s : Session} {calls : List (Value × Value)}

lemma eq_text_of_toText {format : Value} {text : String} (h : format.toText = .ok text) :
    format = .text text := by
  cases format with
  | text s => exact congrArg Value.text (Except.ok.inj h)
  | _ => cases h

lemma usedTexts_concat_text (calls : List (Value × Value)) (value : Value) (text : String) :
    usedTexts (calls ++ [(value, .text text)]) = usedTexts calls ++ [text] :=
  List.filterMap_append

lemma usedTexts_concat_error (calls : List (Value × Value)) (value : Value) {format : Value}
    {e : Fault} (hformat : format.toText = .error e) :
    usedTexts (calls ++ [(value, format)]) = usedTexts calls := by
  simp [usedTexts, hformat, Except.toOption]

lemma usedFormats_concat_text (calls : List (Value × Value)) (value : Value) (text : String) :
    usedFormats (calls ++ [(value, .text text)]) =
      usedFormats calls ++ [text].filter isFormat := by
  rw [usedFormats, usedTexts_concat_text, List.filter_append]
  rfl

/-- A format is kept if the calls say so. -/
theorem HasSeen.contains_iff (h : s.HasSeen calls) {text : String} :
    s.contains text ↔ IsKept calls text := by
  rw [Cache.contains_iff, h.keys_eq, mem_take_recentFirst_iff, usedFormats, IsKept]
  constructor
  · rintro ⟨older, since, hused, hsince, hcard⟩
    -- There may be texts that are no formats between the formats.
    obtain ⟨before, rest, htexts, -, hrest⟩ := List.filter_eq_append_iff.mp hused
    obtain ⟨skipped, after, rfl, -, hformat, rfl⟩ := List.filter_eq_cons_iff.mp hrest
    refine ⟨hformat, before ++ skipped, after, by rw [htexts, List.append_assoc], ?_, hcard⟩
    exact fun hafter => hsince (List.mem_filter.mpr ⟨hafter, hformat⟩)
  · rintro ⟨hformat, older, since, htexts, hsince, hcard⟩
    have hused := congrArg (List.filter isFormat) htexts
    rw [List.filter_append, List.filter_cons_of_pos hformat] at hused
    exact ⟨_, _, hused, mt List.mem_of_mem_filter hsince, hcard⟩

/-- A call keeps what holds. -/
theorem HasSeen.render (h : s.HasSeen calls) (hfaithful : s.Faithful Format.parse)
    (value format : Value) :
    (s.render value format).2.HasSeen (calls ++ [(value, format)]) := by
  cases hformat : format.toText with
  | error e =>
    have htexts := usedTexts_concat_error calls value hformat
    rw [(isAlone_render_of_not_text s value hformat).2]
    exact ⟨by rw [htexts, h.counts_eq], by rw [usedFormats, htexts]; exact h.keys_eq⟩
  | ok text =>
    obtain rfl := eq_text_of_toText hformat
    refine ⟨?_, ?_⟩
    · have hcounts := counts_render hfaithful value text
      have hbefore := h.counts_eq
      rw [usedTexts_concat_text, List.length_append, List.length_singleton]
      obtain ⟨-, hhits, hmisses⟩ | ⟨-, hhits, hmisses⟩ := hcounts <;> omega
    · rw [(render_text hfaithful value text).2.2, usedFormats_concat_text]
      cases hparse : Format.parse text with
      | error e =>
        rw [Cache.keys, (Cache.entries_fetch_of_error hfaithful cacheCapacity hparse).2]
        rw [List.filter_cons_of_neg (by simp [isFormat, hparse, Except.toBool]), List.filter_nil,
          List.append_nil]
        exact h.keys_eq
      | ok f =>
        rw [List.filter_cons_of_pos (by simp [isFormat, hparse, Except.toBool]), List.filter_nil]
        exact Cache.keys_fetch h.keys_eq hparse

/-- After all calls what was seen holds. -/
theorem hasSeen_afterCalls (calls : List (Value × Value)) :
    (afterCalls {} calls).HasSeen calls := by
  induction calls using List.reverseRecOn with
  | nil => exact ⟨rfl, rfl⟩
  | append_singleton calls call ih =>
    rw [afterCalls_append]
    exact ih.render (faithful_afterCalls (Cache.faithful_empty Format.parse) calls) call.1 call.2

/-- A call follows recency if the session has seen the calls before. -/
theorem HasSeen.followsRecency (h : s.HasSeen calls) (hfaithful : s.Faithful Format.parse)
    (value format : Value) : FollowsRecency calls value format s (s.render value format).2 where
  of_not_text e hformat := (isAlone_render_of_not_text s value hformat).2
  hit_or_miss text hformat := by
    obtain rfl := eq_text_of_toText hformat
    rw [← h.contains_iff]
    exact counts_render hfaithful value text
  counts_eq := (h.render hfaithful value format).counts_eq
  keys_eq := (h.render hfaithful value format).keys_eq
  size_eq := by
    rw [Cache.size_eq, (h.render hfaithful value format).keys_eq, List.length_take,
      length_recentFirst]
  of_no_format text e hformat hparse := by
    obtain rfl := eq_text_of_toText hformat
    obtain ⟨hmissing, hentries⟩ := Cache.entries_fetch_of_error hfaithful cacheCapacity hparse
    obtain ⟨hkept, -⟩ | ⟨-, hmiss⟩ := counts_render hfaithful value text
    · exact absurd hkept hmissing
    · rw [← (render_text hfaithful value text).2.2] at hentries
      exact ⟨hmiss, hentries⟩
  of_format text f hformat hparse := by
    obtain rfl := eq_text_of_toText hformat
    rw [(render_text hfaithful value text).2.2]
    exact ⟨Cache.head?_entries_fetch hfaithful (by decide) hparse,
      fun other => (render_text hfaithful other text).2.2⟩

/-- Whatever calls are made from an empty cache on, and whatever becomes of them, each of them
follows recency. -/
theorem followsRecency_replies (earlier later : List (Value × Value)) (value format : Value) :
    ∃ (reply : Reply) (after : Session),
      (replies {} (earlier ++ (value, format) :: later))[earlier.length]? = some (reply, after) ∧
      FollowsRecency earlier value format (afterCalls {} earlier) after := by
  have hfaithful := faithful_afterCalls (Cache.faithful_empty Format.parse) earlier
  have hfollows := (hasSeen_afterCalls earlier).followsRecency hfaithful value format
  exact ⟨_, _, getElem?_replies {} earlier later value format, hfollows⟩

end Session

end FormatCode
