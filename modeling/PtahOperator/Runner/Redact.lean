import PtahOperator.Runner.Identity
import PtahOperator.Go.Runes
import PtahOperator.Scan.Splice

/-!
# Redaction

The redactor of the runner (`internal/runner/redact.go`): which texts it takes for protected values,
and how it cuts them out of a text. Texts are bytes, since a protected value need not be valid UTF-8;
the regular expressions read them as characters, with a byte outside a character as the replacement
character.

* `newRedactor`: the protected values of an environment, with the ways they are written.
* `redact`: cuts out each value as it is written, one value after another, and then the passwords of
  URLs.
* `redactFolded`: the same in any case, as one alternation.

URL parsing, the case tables, the size limit of regular expressions and the order of `sort.Slice` among
values of one length are parameters (`RedactLibrary`).
-/

namespace Ptah.Runner

open Go (Bytes bytes Rune runes validText)

def redactionMarker : Scan.Marker UInt8 where
  opening := 0x5b
  core := bytes "REDACTED"
  closing := 0x5d

/-! ## The environment -/

section Credentials

variable (lib : RedactLibrary)

end Credentials

/-! ## The redactor -/

section Redactor

variable (lib : RedactLibrary)

end Redactor

end Ptah.Runner
