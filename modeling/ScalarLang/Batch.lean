import ScalarLang.FileTree
import ScalarLang.Report

/-!
# Reports on several files

Files are taken in the order of their names, which may repeat. The reports come in the same order;
the first file that cannot be read is reported instead of them all.
-/

namespace ScalarLang

namespace Batch

/-- Why there are no reports. -/
inductive Error
  | unreadable (name : String) (reason : ReadError)
  | canceled
  deriving DecidableEq, Repr, Inhabited

/-- The wording of an error. -/
def Error.message : Error → String
  | unreadable name reason => reason.message name
  | canceled => "context canceled"

end Batch

namespace Report

/-- The report on one file. -/
def ofFile (read : Reader) (name : String) : Except Batch.Error Report :=
  match read name with
  | .ok source => .ok (.ofSource name source)
  | .error reason => .error (.unreadable name reason)

/-- The reports on several files. Where the work is canceled before it starts, that is reported
unless there is nothing to do. -/
def ofFiles (read : Reader) (canceled : Bool) : List String → Except Batch.Error (List Report)
  | [] => .ok []
  | name :: names =>
    if canceled then .error .canceled
    else do
      let report ← ofFile read name
      let reports ← ofFiles read canceled names
      return report :: reports

end Report

end ScalarLang
