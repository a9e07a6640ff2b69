import DocLint.Lint.Config

/-!
# Validation

A validator examines declarations: it reports a missing docstring, or else the flaws found while the
docstring is read, followed by the findings of its checks in order.  Only enabled codes that no
comment suppresses are reported.  A check that fails is reported as such, and a terminating finding
ends the examination.
-/

namespace DocLint

/-- A configuration with the checks to run. -/
structure Validator where
  config : Config
  checks : List Check

namespace Validator

/-- The validator that runs the checks of its configuration. -/
def ofConfig (config : Config) : Validator := ⟨config, config.checks⟩

/-- The code is enabled, and not suppressed for the declaration. -/
def reports (v : Validator) (d : Declaration) (finding : Diagnostic) : Bool :=
  v.config.isEnabled finding.code && !d.suppresses finding.code

/-- The finding that a declaration has no docstring. -/
def missingDocstring (d : Declaration) : Diagnostic :=
  Code.gl08.finding ⟨d.span.start, d.anchor.stop⟩ (some (ascii "Add a docstring."))
    [(ascii "type", d.form.kindName)]

/-- The finding that a check could not be carried out. -/
def failedCheck (d : Declaration) (id : Bytes) (failure : Failure) : Diagnostic :=
  Code.gle99.finding d.anchor none [(ascii "check", id), (ascii "reason", failure.reason)]

/-- The findings up to the first terminating one, that one included. -/
def upToTerminating : List Diagnostic → List Diagnostic
  | [] => []
  | d :: rest => if d.terminates then [d] else d :: upToTerminating rest

/-- What a check contributes: nothing where its id is suppressed, its failure, or its findings. -/
def contribution (v : Validator) (d : Declaration) (doc : Docstring) (check : Check) :
    List Diagnostic :=
  if d.suppresses check.id then []
  else
    match check.run d doc with
    | .error failure => [failedCheck d check.id failure].filter (v.reports d)
    | .ok findings => findings.filter (v.reports d)

/-- What some checks contribute, one after the other. -/
def runChecks (v : Validator) (d : Declaration) (doc : Docstring) : List Check → List Diagnostic
  | [] => []
  | check :: rest =>
    let found := v.contribution d doc check
    -- The checks behind a terminating finding are not run.
    if found.any Diagnostic.terminates then upToTerminating found
    else found ++ v.runChecks d doc rest

/-- The findings about a declaration. -/
def validate (v : Validator) (d : Declaration) : List Diagnostic :=
  if v.config.skips d then []
  else
    match d.docstring with
    | none => [missingDocstring d].filter (v.reports d)
    | some literal =>
      let (doc, flaws) := Docstring.ofLiteral literal
      (flaws.map Flaw.diagnostic).filter (v.reports d) ++ v.runChecks d doc v.checks

end Validator

end DocLint
