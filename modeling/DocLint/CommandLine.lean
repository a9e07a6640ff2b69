import DocLint.FileTree
import DocLint.Lint.Report

/-!
# The command line

The arguments of the program are read into a command, and the command is carried out in a given
environment: the standard input and the files that paths lead to.  The outcome is an exit code and
two texts.  A source that cannot be scanned, or a file that cannot be opened, is reported, and the run
goes on; where the files of a path cannot be collected the run stops, and where a scan breaks off the
program does.

* `parse`: options and paths may come in any order; the first argument that cannot be read, and the
  first that asks for a text, decide.
-/

namespace DocLint

open Bytes

namespace CommandLine

/-! ### Arguments -/

/-- The options that take a list of values. -/
inductive ListOption
  | select
  | ignore
  | exclude
deriving DecidableEq, Repr

namespace ListOption

/-- How the option is written. -/
def name : ListOption → Bytes
  | select => ascii "--select"
  | ignore => ascii "--ignore"
  | exclude => ascii "--exclude"

/-- The list option that an argument is. -/
def ofName? (argument : Bytes) : Option ListOption :=
  [select, ignore, exclude].find? fun option => option.name == argument

end ListOption

/-- The formats by name. -/
def formatNamed? (name : Bytes) : Option OutputFormat :=
  if name = ascii "simple" then some .simple
  else if name = ascii "full" then some .full
  else none

/-- What is to be examined, and how. -/
structure Options where
  config : Config := {}
  paths : List Bytes := []
  /-- What reports call the standard input. -/
  stdinName : Bytes := ascii "<stdin>"
deriving DecidableEq, Repr

namespace Options

/-- The options with more values for a list. -/
def extend (o : Options) (option : ListOption) (values : List Bytes) : Options :=
  let config := match option with
    | .select => { o.config with select := o.config.select ++ values }
    | .ignore => { o.config with ignore := o.config.ignore ++ values }
    | .exclude => { o.config with exclude := o.config.exclude ++ values }
  { o with config }

/-- The paths to examine: the standard input if none is given. -/
def targets (o : Options) : List Bytes := if o.paths.isEmpty then [ascii "-"] else o.paths

end Options

/-- What the arguments ask for. -/
inductive Command
  | help
  | version
  | listChecks
  | lint (options : Options)
deriving DecidableEq, Repr

/-- Why the arguments make no sense. -/
inductive UsageError
  | unknownFormat
  | missingValue (option : Bytes)
  | unknownOption (option : Bytes)
deriving DecidableEq, Repr

namespace UsageError

/-- The error in words. -/
def message : UsageError → Bytes
  | unknownFormat => ascii "--format expects 'simple' or 'full'"
  | missingValue option => option ++ ascii " requires an argument"
  | unknownOption option => ascii "unknown option '" ++ option ++ ascii "'"

end UsageError

/-- The argument is an option. -/
def isOption (argument : Bytes) : Bool := startsWith argument (ascii "--")

/-- The values in some arguments: the parts between commas, empty ones left out. -/
def valuesOf (arguments : List Bytes) : List Bytes :=
  (arguments.flatMap (splitOn (byte ','))).filter fun part => !part.isEmpty

/-- Reads the arguments behind those that led to `o`. -/
def parse (o : Options) : List Bytes → Except UsageError Command
  | [] => .ok (.lint o)
  | argument :: rest =>
    if argument = ascii "--help" then .ok .help
    else if argument = ascii "--version" then .ok .version
    else if argument = ascii "--list-checks" then .ok .listChecks
    else if argument = ascii "--format" then
      match rest with
      | [] => .error .unknownFormat
      | value :: behind =>
        match formatNamed? value with
        | none => .error .unknownFormat
        | some format => parse { o with config := { o.config with format } } behind
    else if argument = ascii "--include-private" then
      parse { o with config := { o.config with includePrivate := true } } rest
    else if argument = ascii "--exclude-magic" then
      parse { o with config := { o.config with excludeMagic := true } } rest
    else if argument = ascii "--stdin-filename" then
      match rest with
      | [] => .error (.missingValue argument)
      | value :: behind => parse { o with stdinName := value } behind
    else
      match ListOption.ofName? argument with
      | some option =>
        -- A list option takes everything up to the next option.
        let values := valuesOf (rest.takeWhile fun a => !isOption a)
        if values.isEmpty then .error (.missingValue argument)
        else parse (o.extend option values) (rest.dropWhile fun a => !isOption a)
      | none =>
        if isOption argument then .error (.unknownOption argument)
        else parse { o with paths := o.paths ++ [argument] } rest
termination_by arguments => arguments.length
decreasing_by
  · simp only [List.length_cons]
    omega
  · exact Nat.lt_succ_self _
  · exact Nat.lt_succ_self _
  · simp only [List.length_cons]
    omega
  · exact Nat.lt_succ_of_le (List.dropWhile_sublist _).length_le
  · exact Nat.lt_succ_self _

/-! ### Texts -/

/-- The lines of a text, each with its newline. -/
def textOf (lines : List String) : Bytes := lines.flatMap fun line => ascii line ++ [newline]

/-- The name under which the program presents itself. -/
def programName : Bytes := ascii "npdlint"

/-- The description of the program's arguments. -/
def usage : Bytes :=
  ascii "Usage: " ++ programName ++ textOf [
    " [options] [path|-]",
    "",
    "Lint numpydoc docstrings in Python sources. `path` is a file or a",
    "directory searched for *.py files; `-` (the default) reads stdin.",
    "",
    "Options:",
    "  --format simple|full    Output format (default: simple)",
    "  --select CODE...        Report only codes with these prefixes",
    "  --ignore CODE...        Never report codes with these prefixes",
    "  --exclude GLOB...       Skip matching paths",
    "  --include-private       Also check _private declarations",
    "  --exclude-magic         Skip __magic__ methods",
    "  --stdin-filename NAME   Name reported for stdin input",
    "  --list-checks           List checks in execution order and exit",
    "  --help                  Show this help message",
    "  --version               Show version information"]

/-- The version of the program. -/
def version : Bytes := programName ++ textOf [" 0.3.0", "numpydoc docstring linter"]

/-- A code with what its message says. -/
def describe (code : Code) : Bytes :=
  padRight 6 code.name ++ ascii " " ++ code.template.render ++ [newline]

/-- The codes in the order in which they are looked for: the missing docstring, then the checks. -/
def checkList : Bytes :=
  describe .gl08 ++ Check.registered.flatMap fun check =>
    match Code.ofName? check.id with
    | some code => describe code
    | none => []

/-! ### Runs -/

/-- What a run can see besides its arguments. -/
structure Environment where
  /-- The text of the standard input. -/
  stdin : Bytes := []
  /-- What a path leads to. -/
  find? : Bytes → Option FileTree

/-- Why a run ends before all its sources have been examined. -/
inductive Stop
  /-- The files of a path cannot be collected, for this reason. -/
  | uncollected (reason : Bytes)
  /-- The scan of a source has broken off. -/
  | broken
  /-- The end of a source is never found. -/
  | endless
deriving DecidableEq, Repr

/-- What examining some sources comes to. -/
structure Progress where
  stdout : Bytes := []
  stderr : Bytes := []
  /-- The number of findings. -/
  findings : Nat := 0
  /-- Some source was refused, or could not be opened. -/
  failed : Bool := false
  /-- What has ended the run. -/
  stop : Option Stop := none
deriving DecidableEq, Repr

namespace Progress

/-- One after the other, unless the run has ended. -/
def append (a b : Progress) : Progress :=
  match a.stop with
  | some _ => a
  | none =>
    { stdout := a.stdout ++ b.stdout
      stderr := a.stderr ++ b.stderr
      findings := a.findings + b.findings
      failed := a.failed || b.failed
      stop := b.stop }

instance : Append Progress := ⟨append⟩

end Progress

/-- How a run ends. -/
inductive Ending
  | exit (code : Nat)
  /-- An exception ends the program. -/
  | abort
  /-- The run does not come to an end. -/
  | never
deriving DecidableEq, Repr

/-- What a run leaves behind, and how it ends.  The texts are those that it hands over for output; if
it is aborted, the end of the standard output may be lost with its buffer. -/
structure Outcome where
  ending : Ending
  stdout : Bytes := []
  stderr : Bytes := []
deriving DecidableEq, Repr

/-- A line that reports an error of the run. -/
def errorLine (message : Bytes) : Bytes := ascii "error: " ++ message ++ [newline]

/-- The lines that report the faults of a source. -/
def faultLines (path : Bytes) (faults : List Fault) : Bytes :=
  faults.flatMap fun fault => fault.diagnostic.located path ++ [newline]

/-- Examines one source text. -/
def lintSource (v : Validator) (path source : Bytes) : Progress :=
  match ScanOutcome.ofSource source with
  | .endless => { stop := some .endless }
  | .broken reported => { stderr := faultLines path reported, stop := some .broken }
  | .finished _ =>
    match v.lint source with
    | .ok findings =>
      { stdout := Finding.renderAll path source v.config.format findings,
        findings := findings.length }
    | .error scanned =>
      { stderr := faultLines path scanned.faults ++ errorLine (scanned.refusal path)
        failed := true }

/-- Examines a file. -/
def lintFile (v : Validator) (file : SourceFile) : Progress :=
  match file.content with
  | some source => lintSource v file.path source
  | none =>
    { stderr := errorLine (ascii "cannot open file '" ++ file.path ++ ascii "'"), failed := true }

/-- Examines some files. -/
def lintFiles (v : Validator) (files : List SourceFile) : Progress :=
  files.foldr (fun file progress => lintFile v file ++ progress) {}

/-- Examines what some paths lead to.  The standard input can be read once; after that it is empty. -/
def lintPaths (v : Validator) (stdinName : Bytes) (find? : Bytes → Option FileTree) :
    Bytes → List Bytes → Progress
  | _, [] => {}
  | stdin, path :: rest =>
    if path = ascii "-" then
      if v.config.isExcluded stdinName then lintPaths v stdinName find? stdin rest
      else lintSource v stdinName stdin ++ lintPaths v stdinName find? [] rest
    else
      match FileTree.collect? v.config path (find? path) with
      | .error reason => { stop := some (.uncollected reason) }
      | .ok files => lintFiles v files ++ lintPaths v stdinName find? stdin rest

/-- What a run leaves behind that has come to this. -/
def Progress.outcome (progress : Progress) : Outcome :=
  match progress.stop with
  | some (.uncollected reason) =>
    { ending := .exit 2, stdout := progress.stdout, stderr := progress.stderr ++ errorLine reason }
  | some .broken => { ending := .abort, stdout := progress.stdout, stderr := progress.stderr }
  | some .endless => { ending := .never, stdout := progress.stdout, stderr := progress.stderr }
  | none =>
    let total :=
      if 0 < progress.findings then
        ascii "Found " ++ decimal progress.findings ++ ascii " errors." ++ [newline]
      else []
    { ending := .exit (if 0 < progress.findings ∨ progress.failed then 1 else 0)
      stdout := progress.stdout ++ total
      stderr := progress.stderr }

/-- Carries out the examination that some options ask for. -/
def lint (o : Options) (environment : Environment) : Outcome :=
  (lintPaths (.ofConfig o.config) o.stdinName environment.find? environment.stdin o.targets).outcome

/-- Runs the program. -/
def run (arguments : List Bytes) (environment : Environment) : Outcome :=
  match parse {} arguments with
  | .error e => { ending := .exit 2, stderr := errorLine e.message }
  | .ok .help => { ending := .exit 0, stdout := usage }
  | .ok .version => { ending := .exit 0, stdout := version }
  | .ok .listChecks => { ending := .exit 0, stdout := checkList }
  | .ok (.lint o) => lint o environment

end CommandLine

end DocLint
