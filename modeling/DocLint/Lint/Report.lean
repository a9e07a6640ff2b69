import DocLint.Diagnostic.Render
import DocLint.Lint.Validator
import DocLint.Source.Scanner

/-!
# Reports

A source text is scanned and its declarations are validated; what is found is written down in one of
two forms.
-/

namespace DocLint

/-- A finding with the beginning of the declaration that it is about. -/
structure Finding where
  diagnostic : Diagnostic
  declarationStart : Position
deriving DecidableEq, Repr

namespace Finding

/-- A finding in one of the two forms.  There is no source to show for a missing docstring. -/
def render (path : Bytes) (source : List Bytes) (format : OutputFormat) (f : Finding) : Bytes :=
  if format = .simple ∨ f.diagnostic.code = Code.gl08.name then f.diagnostic.compact path
  else f.diagnostic.detailed path source f.declarationStart

/-- The findings about one source text, one after the other. -/
def renderAll (path source : Bytes) (format : OutputFormat) (findings : List Finding) : Bytes :=
  findings.flatMap (render path (Bytes.lines source) format)

end Finding

namespace Validator

/-- The findings about the declarations of a file, in order. -/
def findings (v : Validator) (declarations : List Declaration) : List Finding :=
  declarations.flatMap fun d => (v.validate d).map fun diagnostic => ⟨diagnostic, d.span.start⟩

/-- The findings about a source text, or the scan that refused it. -/
def lint (v : Validator) (source : Bytes) : Except ScannedSource (List Finding) :=
  let scanned := ScannedSource.ofSource source
  if scanned.isAccepted then .ok (v.findings scanned.declarations) else .error scanned

end Validator

end DocLint
