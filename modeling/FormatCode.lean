import FormatCode.Proofs.Format.Appended
import FormatCode.Proofs.Format.Condition
import FormatCode.Proofs.Format.DigitText
import FormatCode.Proofs.Format.EqualValues
import FormatCode.Proofs.Format.Fallback
import FormatCode.Proofs.Format.Faults
import FormatCode.Proofs.Format.FractionPlaces
import FormatCode.Proofs.Format.Inert
import FormatCode.Proofs.Format.NonFinite
import FormatCode.Proofs.Format.NumberPattern
import FormatCode.Proofs.Format.PieceSections
import FormatCode.Proofs.Format.Places
import FormatCode.Proofs.Format.Printer
import FormatCode.Proofs.Format.Quoting
import FormatCode.Proofs.Format.Scale
import FormatCode.Proofs.Format.Spelling
import FormatCode.Proofs.Format.Unreadable
import FormatCode.Proofs.Format.WellFormed
import FormatCode.Proofs.Format.WholePart
import FormatCode.Proofs.Node.Agreement
import FormatCode.Proofs.Node.Equality
import FormatCode.Proofs.Node.ReadOnly
import FormatCode.Proofs.Number.Canonical
import FormatCode.Proofs.Session.Recency
import FormatCode.Proofs.Session.Replies
import FormatCode.Proofs.Token.Brackets
import FormatCode.Proofs.Token.Grammar
import FormatCode.Rule
import FormatCode.Proofs.Rule.Cutting
import FormatCode.Proofs.Text.Quoted
import FormatCode.Proofs.Value.Written
import FormatCode.Proofs.Format.Written
