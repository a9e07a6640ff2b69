import DocLint.Check.Layout
import DocLint.Check.Parameters
import DocLint.Check.Results
import DocLint.Check.Summary

/-!
# The registered checks

The checks in the order in which they are run.

* `nodup_registered_ids`: every check has an id of its own.
-/

namespace DocLint

namespace Check

/-- Every check, in the order of execution. -/
def registered : List Check :=
  [ofCode .gl01 openingLine, ofCode .gl02 closingLine, ofCode .gl03 doubleBlank,
    ofCode .gl05 tabs, ofCode .gl06 unknownSection, ofCode .gl07 sectionOrder,
    ofCode .gl09 deprecationPlace, ofCode .gl10 directiveColons, ofCode .gle01 repeatedDeprecation,
    ofCode .ss01 summaryMissing, ofCode .ss02 summaryCapital, ofCode .ss03 summaryPeriod,
    ofCode .ss04 summaryIndent, ofCode .ss05 summaryVerb, ofCode .ss06 summaryLength,
    ofCode .es01 extendedMissing, ofCode .ex01 examplesMissing,
    ofCode .pr01 undocumentedParameters, ofCode .pr02 undeclaredParameters,
    ofCode .pr03 parameterOrder, ofCode .pr04 typeMissing, ofCode .pr05 typePeriod,
    ofCode .pr06 typeNames, ofCode .pr07 parameterDescribed, ofCode .pr08 parameterCapitalized,
    ofCode .pr09 parameterPunctuated, ofCode .pr10 colonSpacing,
    ofCode .pre01 blankAboveDescription, ofCode .pre02 blankBelowDescription,
    ofCode .pre03 repeatedOptional, ofCode .pre04 emptyChoices,
    ofCode .rt01 returnsMissing, ofCode .rt02 namedReturn, ofCode .rt03 returnDescribed,
    ofCode .rt04 returnCapitalized, ofCode .rt05 returnPunctuated, ofCode .yd01 yieldsMissing]

/-- The check with an id. -/
def ofId? (id : Bytes) : Option Check := registered.find? fun check => check.id == id

/-- Every check has an id of its own. -/
theorem nodup_registered_ids : (registered.map Check.id).Nodup := by decide

end Check

end DocLint
