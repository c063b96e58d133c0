import FormatCode.Format.Basic
import FormatCode.Text.Quoted
import FormatCode.Token.Basic

/-!
# From tokens to a format

The tokens of a format are read once, from left to right. Each adds parts to the section at hand or
sets one of its attributes, where a later token wins over an earlier one; a separator finishes the
section. A last section without parts is dropped.

A comma means one of four things, by its neighbours: grouping between two placeholders, scaling
after the last placeholder of the whole format, itself after a literal, and otherwise nothing.

## Main definitions

* `Draft` — the sections that are finished and the one at hand.
* `Draft.add` — what a token does to a draft.
* `Format.ofTokens` — the format of a list of tokens.
* `Format.parse` — the format of a text.
-/

namespace FormatCode

/-- The sections finished so far, the section at hand, and its parts. -/
structure Draft where
  finished : Array Section := #[]
  current : Section := {}
  parts : Array Part := #[]

namespace Draft

def push (d : Draft) (part : Part) : Draft := { d with parts := d.parts.push part }

def pushText (d : Draft) (text : String) : Draft :=
  if text.isEmpty then d else d.push (.literal text)

def pushCharacters (d : Draft) (text : String) : Draft :=
  { d with parts := d.parts ++ text.toList.map fun c => Part.literal (String.ofList [c]) }

def atHand (d : Draft) : Section := { d.current with parts := d.parts.toList }

def finish (d : Draft) : Draft := { finished := d.finished.push d.atHand }

/-- What a comma does, between the token before it and the tokens after it. -/
def addComma (d : Draft) (before : Option Token) (after : List Token) : Draft :=
  match before with
  | some (.placeholder _) =>
    if after.head?.any Token.isPlaceholder then
      { d with current := { d.current with grouped := true } }
    else if after.any Token.isPlaceholder then d
    else { d with current := { d.current with scale := d.current.scale * 1000 } }
  | some (.literal _) => d.push (.literal ",")
  | _ => d

def add (d : Draft) (before : Option Token) (after : List Token) : Token → Except Fault Draft
  | .color name => .ok { d with current := { d.current with color := name } }
  | .condition operator threshold =>
    .ok { d with current := { d.current with condition := some ⟨operator, threshold⟩ } }
  | .sectionSeparator => .ok d.finish
  | .decimalPoint => .ok (d.push .point)
  | .percentMark =>
    .ok { d with
      current := { d.current with percentCount := d.current.percentCount + 1 }
      parts := d.parts.push .percent }
  | .scientific sign => .ok { d with current := { d.current with scientific := sign } }
  | .literal text | .escape text => .ok (d.pushText text)
  | .quoted text => .ok (d.pushCharacters text)
  | .placeholder mark =>
    match Placeholder.ofMark? mark with
    | some p => .ok (d.push (.placeholder p))
    | none => .error (.unknownPlaceholder (quote mark))
  | .thousandSep => .ok (d.addComma before after)
  | .bare | .textPlaceholder | .fill _ | .space _ | .locale _ | .date _ => .ok d

def addAll (d : Draft) (before : Option Token) : List Token → Except Fault Draft
  | [] => .ok d
  | token :: rest => do (← d.add before rest token).addAll (some token) rest

/-- The sections of a draft, without a last one that has no parts. -/
def sections (d : Draft) : List Section :=
  (if d.parts.isEmpty then d else d.finish).finished.toList

end Draft

namespace Format

def ofTokens (tokens : List Token) : Except Fault Format :=
  (({} : Draft).addAll none tokens).map fun d => ⟨d.sections⟩

def parse (format : String) : Except Fault Format := do ofTokens (← tokenize format)

end Format

end FormatCode
