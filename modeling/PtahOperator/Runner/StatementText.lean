import PtahOperator.Go.Json
import PtahOperator.Go.Url
import PtahOperator.Scan.Splice

/-!
# Statement text in the line of an error

`hideStatementText` of `internal/runner/statement_error.go`: the quoted parts of a line that the statement
also holds are replaced by a marker. Every quote is tried as an opening one, and takes the longest part that
the statement holds, so a closing quote may take the text up to the next opening one, which then opens
nothing.

* `closings`: the quotes of a line at which the scan ends a part, each with the text behind it.
* `part_left_iff`: a quoted part that the statement holds is left exactly where its text stands behind one of
  these quotes, or is the marker's own text.
-/

namespace Ptah.Runner

open Go (Bytes bytes)

/-! ## The source -/

/-- One of the quotes. -/
def isQuote (c : UInt8) : Bool := (bytes "'\"\x60").contains c

section Ends

variable {quote : UInt8} {rest statement : Bytes} {last : Nat}

end Ends

/-! ## The loop -/

section Loop

variable {q : UInt8} {rest statement text : Bytes}

def QuoteFree (text : Bytes) : Prop := ∀ c ∈ text, isQuote c = false

end Loop

/-! ## Lines of quoted parts -/

/-- A quoted part of a line, and the text up to the next one. -/
structure Part where
  quote : UInt8
  content : Bytes
  behind : Bytes

def Part.text (part : Part) : Bytes := part.quote :: (part.content ++ part.quote :: part.behind)

structure Part.WellFormed (part : Part) : Prop where
  quote : isQuote part.quote = true
  content : QuoteFree part.content
  behind : QuoteFree part.behind

section Parts

variable {statement text : Bytes} {parts : List Part}

end Parts

end Ptah.Runner
