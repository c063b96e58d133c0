/-!
# A cache of what was computed last

A cache of bounded size keeps the results used most recently, the last one first. A result that is
asked for again moves to the front; one that is new may push out the one used longest ago. What
fails is not kept. The cache counts how often it had a result and how often not.

## Main definitions

* `Cache` — the results kept, and the counts.
* `Cache.fetch` — the result for a key, kept or computed.
-/

namespace FormatCode

/-- The results kept for some keys, the last used first. -/
structure Cache (κ α : Type) where
  entries : List (κ × α) := []
  hits : Nat := 0
  misses : Nat := 0
deriving Repr

namespace Cache

variable {κ α ε : Type} [BEq κ]

def size (c : Cache κ α) : Nat := c.entries.length

def contains (c : Cache κ α) (key : κ) : Bool := (c.entries.lookup key).isSome

def fetch (capacity : Nat) (compute : κ → Except ε α) (c : Cache κ α) (key : κ) :
    Except ε α × Cache κ α :=
  match c.entries.lookup key with
  | some a =>
    (.ok a, { c with
      entries := (key, a) :: c.entries.filter (fun entry => !(entry.1 == key))
      hits := c.hits + 1 })
  | none =>
    match compute key with
    | .ok a =>
      (.ok a, { c with
        entries := ((key, a) :: c.entries).take capacity
        misses := c.misses + 1 })
    | .error e => (.error e, { c with misses := c.misses + 1 })

end Cache

end FormatCode
