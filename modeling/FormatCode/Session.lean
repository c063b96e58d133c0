import FormatCode.Cache
import FormatCode.Event

/-!
# Showing many values

A session keeps the formats used last, so that a format that is used again is not read again. What
is shown does not depend on it; only the record does, since reading a format may leave one.

## Main definitions

* `cacheCapacity` — how many formats are kept.
* `Session` — the formats kept.
* `Reply` — what comes of showing a value, with the record of it.
* `Session.render` — showing a value through the format of a text.
* `Session.replies` — showing values one after the other.
-/

namespace FormatCode

def cacheCapacity : Nat := 256

abbrev Session := Cache String Format

structure Reply where
  result : Except Fault Rendered
  events : List Event

namespace Session

def readingEvents (s : Session) (format : String) : List Event :=
  if s.contains format then [] else (inertBrackets format).map .inertBracket

/-- Shows a value through the format of a text. A format that is not text does not reach the formats
kept; a value that cannot be shown does. -/
def render (s : Session) (value format : Value) : Reply × Session :=
  match format.toText with
  | .error e => (⟨.error e, []⟩, s)
  | .ok text =>
    let events := s.readingEvents text
    match s.fetch cacheCapacity Format.parse text with
    | (.error e, s) => (⟨.error e, events⟩, s)
    | (.ok f, s) => (⟨f.render value, events ++ f.events value⟩, s)

def replies (s : Session) : List (Value × Value) → List (Reply × Session)
  | [] => []
  | (value, format) :: rest =>
    let (reply, s) := s.render value format
    (reply, s) :: replies s rest

end Session

end FormatCode
