import DocLint.Check.Basic

/-!
# Checks of entries

Three rules that parameters and results share: an entry has a description, which begins with a
capital letter and ends with a period.
-/

namespace DocLint

namespace Check

/-- What a message calls its entry, and how it is displayed. -/
def subject (field : String) (entry : ParameterEntry) : List (Bytes × Bytes) :=
  [(ascii field, entry.displayName)]

/-- Reports a code for every entry whose description does not satisfy `p`. -/
def descriptions (code : Code) (field : String) (p : Paragraph → Bool) (suggestion : String)
    (entries : List ParameterEntry) : CheckResult :=
  (entries.filter fun entry => !p entry.description).mapM fun entry =>
    code.report entry.anchor (suggest suggestion) (subject field entry)

/-- Every entry has a description. -/
def described (code : Code) (field : String) (entries : List ParameterEntry) : CheckResult :=
  descriptions code field Paragraph.hasDescription "Add description." entries

/-- Every description begins with a capital letter. -/
def capitalized (code : Code) (field : String) (entries : List ParameterEntry) : CheckResult :=
  descriptions code field Paragraph.startsUppercase "Change first letter to uppercase." entries

/-- Every description ends with a period. -/
def punctuated (code : Code) (field : String) (entries : List ParameterEntry) : CheckResult :=
  descriptions code field Paragraph.endsWithPeriod "Add period to end of description." entries

end Check

end DocLint
