import Thesaurus.Json.Reader
import Thesaurus.Json.Writer

/-!
# Formats

A format reads values from texts and writes them as texts. What is handed over as a text is read
by a format that is given; `Format.plain` is the one of the reader and the writer.
-/

namespace Thesaurus.Json

/-- How values are read and written. -/
structure Format where
  /-- The value that a text stands for; none where it stands for none. -/
  read? : String → Option Value
  /-- A text that stands for a value. -/
  write : Value → String

/-- Texts are read in the strict grammar and written without blanks. -/
def Format.plain : Format := ⟨Json.read?, Value.render⟩

end Thesaurus.Json
