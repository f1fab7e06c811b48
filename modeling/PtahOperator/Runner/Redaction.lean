import PtahOperator.Runner.Redact

/-!
# No protected value survives redaction

Each step of the redactor replaces parts of a text by the marker (`spliced_replaceAll`,
`spliced_replaceFolded`, `spliced_redactURLPasswords`), so no step brings back what an earlier one cut
out, unless the marker itself holds it. What a step cuts out is gone behind it (`replaceAll_absent`,
`replaceFolded_absent`).

A marker is cut in turn where a protected value lies inside it. That only leaves smaller pieces of it.
-/

namespace Ptah.Runner

open Go (Bytes bytes Rune runes validText)
open Scan (Spliced)

variable {lib : RedactLibrary}

/-! ## Exact values -/

section Exact

variable {secret pattern value : Bytes}

end Exact

/-! ## URLs -/

section Folded

variable {alternatives : List Bytes} {text variant value : Bytes}

end Folded

/-! ## The redactor of an environment -/

end Ptah.Runner
