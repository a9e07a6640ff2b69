import DocLint.Check.Entry

/-!
# Checks of the results

The rules about what a function returns and yields.
-/

namespace DocLint

namespace Check

open Bytes

/-- The entries of the section about what is returned. -/
def returnEntries (doc : Docstring) : List ParameterEntry := doc.entries SectionName.returns

/-- Applies a rule to functions and methods. -/
def ofCallable (d : Declaration) (result : CheckResult) : CheckResult :=
  if d.form.isCallable then result else silent

/-- RT01: a function that returns something says so. -/
def returnsMissing (d : Declaration) (doc : Docstring) : CheckResult :=
  if !d.form.isCallable || d.form.counts.returns == 0 || doc.hasSection SectionName.returns then
    silent
  else one (Code.rt01.report (.point d.anchor.stop) (suggest "Declare return section."))

/-- RT02: a single result has no name. -/
def namedReturn (d : Declaration) (doc : Docstring) : CheckResult :=
  ofCallable d <|
    match returnEntries doc with
    | [entry] =>
      match entry.name with
      | none => silent
      | some name =>
        one (Code.rt02.report name.span (some (ascii "Remove the name `" ++ name.value ++ ascii "`."))
          [(ascii "return", name.value)])
    | _ => silent

/-- RT03: every result has a description. -/
def returnDescribed (d : Declaration) (doc : Docstring) : CheckResult :=
  ofCallable d (described .rt03 "return" (returnEntries doc))

/-- RT04: the description of a result begins with a capital letter. -/
def returnCapitalized (d : Declaration) (doc : Docstring) : CheckResult :=
  ofCallable d (capitalized .rt04 "return" (returnEntries doc))

/-- RT05: the description of a result ends with a period. -/
def returnPunctuated (d : Declaration) (doc : Docstring) : CheckResult :=
  ofCallable d (punctuated .rt05 "return" (returnEntries doc))

/-- YD01: a function that yields something says so. -/
def yieldsMissing (d : Declaration) (doc : Docstring) : CheckResult :=
  if !d.form.isCallable || d.form.counts.yields == 0 || doc.hasSection SectionName.yields then
    silent
  else one (Code.yd01.report d.anchor (suggest "Add a Yields section."))

end Check

end DocLint
