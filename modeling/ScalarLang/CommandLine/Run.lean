import ScalarLang.Batch
import ScalarLang.CommandLine.Listing
import ScalarLang.CommandLine.Options
import ScalarLang.CommandLine.Outline

/-!
# Running the command line

What the program writes to its two outputs, and its exit code, for given arguments and readable
files. Exit code 0 says that every source was accepted, 1 that one was rejected or could not be
read, 2 that the arguments ask for nothing that can be done.
-/

namespace ScalarLang.CommandLine

/-- Whether the standard output takes what is written to it. -/
inductive Device
  | working
  | full
  deriving DecidableEq, Repr, Inhabited

/-- What surrounds a run. -/
structure Environment where
  read : Reader
  /-- Whether the standard error is a terminal. -/
  terminal : Bool
  stdout : Device

/-- What a part of a run writes to the two outputs. -/
structure Written where
  stdout : String
  stderr : String
  deriving DecidableEq, Repr, Inhabited

namespace Written

/-- Nothing. -/
def nothing : Written := ⟨"", ""⟩

/-- One part after another. -/
def append (a b : Written) : Written :=
  ⟨a.stdout ++ b.stdout, a.stderr ++ b.stderr⟩

/-- Several parts in order. -/
def concat : List Written → Written
  | [] => nothing
  | a :: rest => a.append (concat rest)

end Written

/-- The result of a run. -/
structure Output where
  exitCode : Nat
  stdout : String
  stderr : String
  deriving DecidableEq, Repr, Inhabited

/-- Whether diagnostics are coloured. -/
def useColor (o : Options) (terminal : Bool) : Bool :=
  match o.color with
  | .always => true
  | .never => false
  | .auto => terminal

/-- A line on the standard error, red if it is coloured. -/
def errorLine (color : Bool) (message : String) : String :=
  if color then "\x1b[31m" ++ message ++ "\x1b[0m\n" else message ++ "\n"

/-- The lines for some diagnostics. -/
def errorLines (color : Bool) (messages : List String) : String :=
  String.join (messages.map (errorLine color))

/-- The listing of the variables of a source. An output that takes nothing is reported. -/
def writeListing (color : Bool) (device : Device) (table : SymbolTable) : Written :=
  match device with
  | .working => ⟨listing table, ""⟩
  | .full =>
    ⟨"", errorLine color
      "Error: writing symbols: write /dev/stdout: no space left on device"⟩

/-- What is written for an accepted program. -/
def writeProgram (o : Options) (p : Program) : Written :=
  ⟨p.text ++ (if o.ast then outline p else ""), ""⟩

/-- What is written for a verdict: its diagnostics, the listing, the program. -/
def writeVerdict (o : Options) (color : Bool) (device : Device) (v : Verdict) : Written :=
  let diagnostics := v.fatal.toList ++ v.errors
  .concat
    [⟨"", errorLines color (diagnostics.map ("Error: " ++ ·.message))⟩,
     if o.symbols then writeListing color device v.symbols else .nothing,
     (v.program.map (writeProgram o)).getD .nothing]

/-- What is written for a source. -/
def writeReport (o : Options) (color : Bool) (device : Device) (r : Report) : Written :=
  Written.append ⟨"", errorLines color (r.syntaxErrors.map (·.report))⟩
    ((r.verdict.map (writeVerdict o color device)).getD .nothing)

/-- What is written for several sources: each after a line with its name. -/
def writeReports (o : Options) (color : Bool) (device : Device) (reports : List Report) :
    Written :=
  .concat (reports.map fun r =>
    Written.append ⟨if 1 < reports.length then "==> " ++ r.filename ++ " <==\n" else "", ""⟩
      (writeReport o color device r))

/-- Works on the named files. -/
def work (e : Environment) (o : Options) (names : List String) : Output :=
  match Report.ofFiles e.read false names with
  | .error reason => ⟨1, "", "Error: " ++ reason.message ++ "\n"⟩
  | .ok reports =>
    let written := writeReports o (useColor o e.terminal) e.stdout reports
    ⟨if reports.any (·.rejected) then 1 else 0,
      match e.stdout with
      | .working => written.stdout
      | .full => "",
      written.stderr⟩

/-- Runs the command line on its arguments. -/
def run (e : Environment) (arguments : List String) : Output :=
  match Request.ofArguments arguments with
  | .help => ⟨0, "", usage⟩
  | .refuse reason => ⟨2, "", reason.message ++ "\n" ++ usage⟩
  | .work _ [] => ⟨2, "", "Error: no input file provided\n"⟩
  | .work o names => work e o names

end ScalarLang.CommandLine
