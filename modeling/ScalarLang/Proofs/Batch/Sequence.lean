import Mathlib.Data.List.Forall2
import ScalarLang.Batch

/-!
# Reports on files one after another

A file has a report exactly if it can be read, and the reports on several files are the reports on
each of them (`ofFiles_eq_ok_iff`). Without reports, the reason is that one of the files cannot be
read (`exists_unreadable_of_ofFiles`).
-/

namespace ScalarLang

/-- The file of a given name can be read. -/
def Reader.Reads (read : Reader) (name : String) : Prop :=
  ∃ source, read name = .ok source

instance (read : Reader) (name : String) : Decidable (read.Reads name) :=
  match h : read name with
  | .ok source => .isTrue ⟨source, h⟩
  | .error _ => .isFalse (by simp [Reader.Reads, h])

/-- A file that cannot be read has a reason for it. -/
theorem Reader.not_reads_iff {read : Reader} {name : String} :
    ¬ read.Reads name ↔ ∃ reason, read name = .error reason := by
  unfold Reader.Reads
  cases read name with
  | ok source => simp
  | error reason => simp

namespace Report

variable {read : Reader} {name : String}

/-- A report is on the source that has been read. -/
theorem ofFile_eq_ok_iff {report : Report} :
    ofFile read name = .ok report ↔
      ∃ source, read name = .ok source ∧ report = ofSource name source := by
  unfold ofFile
  cases read name with
  | ok source => simp [eq_comm]
  | error reason => simp

/-- There is no report because the file cannot be read. -/
theorem ofFile_eq_error_iff {reason : Batch.Error} :
    ofFile read name = .error reason ↔
      ∃ cause, read name = .error cause ∧ reason = .unreadable name cause := by
  unfold ofFile
  cases read name with
  | ok source => simp
  | error cause => simp [eq_comm]

/-- A file that can be read has a report. -/
theorem exists_ofFile_of_reads (h : read.Reads name) : ∃ report, ofFile read name = .ok report := by
  obtain ⟨source, hsource⟩ := h
  exact ⟨_, ofFile_eq_ok_iff.mpr ⟨source, hsource, rfl⟩⟩

/-- A file with a report can be read. -/
theorem reads_of_ofFile {report : Report} (h : ofFile read name = .ok report) :
    read.Reads name := by
  obtain ⟨source, hsource, -⟩ := ofFile_eq_ok_iff.mp h
  exact ⟨source, hsource⟩

/-- Reports on a file and some others. -/
theorem ofFiles_cons_eq_ok_iff {names : List String} {reports : List Report} :
    ofFiles read false (name :: names) = .ok reports ↔
      ∃ report rest, ofFile read name = .ok report ∧ ofFiles read false names = .ok rest ∧
        reports = report :: rest := by
  show (ofFile read name >>= fun report =>
    ofFiles read false names >>= fun rest => pure (report :: rest)) = _ ↔ _
  cases ofFile read name with
  | error reason => simp [bind, Except.bind]
  | ok report =>
    cases ofFiles read false names with
    | error reason => simp [bind, Except.bind]
    | ok rest => simp [bind, Except.bind, pure, Except.pure, eq_comm]

/-- Why there are no reports on a file and some others. -/
theorem ofFiles_cons_eq_error_iff {names : List String} {reason : Batch.Error} :
    ofFiles read false (name :: names) = .error reason ↔
      ofFile read name = .error reason ∨
        read.Reads name ∧ ofFiles read false names = .error reason := by
  have hreads : read.Reads name ↔ ∃ report, ofFile read name = .ok report :=
    ⟨exists_ofFile_of_reads, by rintro ⟨report, hreport⟩; exact reads_of_ofFile hreport⟩
  rw [hreads]
  show (ofFile read name >>= fun report =>
    ofFiles read false names >>= fun rest => pure (report :: rest)) = _ ↔ _
  cases ofFile read name with
  | error reason => simp [bind, Except.bind]
  | ok report =>
    cases ofFiles read false names with
    | error reason => simp [bind, Except.bind]
    | ok rest => simp [bind, Except.bind, pure, Except.pure]

/-- The reports on several files are the reports on each of them. -/
theorem ofFiles_eq_ok_iff {names : List String} {reports : List Report} :
    ofFiles read false names = .ok reports ↔
      List.Forall₂ (fun name report => ofFile read name = .ok report) names reports := by
  induction names generalizing reports with
  | nil => simp [ofFiles, eq_comm]
  | cons name names ih => simp only [ofFiles_cons_eq_ok_iff, ih, List.forall₂_cons_left_iff,
      exists_and_left]

/-- There are reports on files that can all be read. -/
theorem exists_ofFiles_of_reads {names : List String} (h : ∀ name ∈ names, read.Reads name) :
    ∃ reports, ofFiles read false names = .ok reports := by
  induction names with
  | nil => exact ⟨[], rfl⟩
  | cons name names ih =>
    obtain ⟨report, hreport⟩ := exists_ofFile_of_reads (h name List.mem_cons_self)
    obtain ⟨reports, hreports⟩ := ih fun other hmem => h other (List.mem_cons_of_mem _ hmem)
    exact ⟨report :: reports,
      ofFiles_eq_ok_iff.mpr (.cons hreport (ofFiles_eq_ok_iff.mp hreports))⟩

/-- Where there are no reports, one of the files has none. -/
theorem exists_ofFile_of_ofFiles {names : List String} {reason : Batch.Error}
    (h : ofFiles read false names = .error reason) :
    ∃ name ∈ names, ofFile read name = .error reason := by
  induction names with
  | nil => exact absurd h (by simp [ofFiles])
  | cons name names ih =>
    rcases ofFiles_cons_eq_error_iff.mp h with hfile | ⟨-, hfiles⟩
    · exact ⟨name, List.mem_cons_self, hfile⟩
    · obtain ⟨found, hmem, hfound⟩ := ih hfiles
      exact ⟨found, List.mem_cons_of_mem _ hmem, hfound⟩

/-- Files of which one cannot be read have no reports, and the reason is such a file. -/
theorem exists_unreadable_of_ofFiles {names : List String}
    (h : ∃ name ∈ names, ¬ read.Reads name) :
    ∃ name ∈ names, ∃ cause, read name = .error cause ∧
      ofFiles read false names = .error (.unreadable name cause) := by
  cases hfiles : ofFiles read false names with
  | error reason =>
    obtain ⟨name, hmem, hname⟩ := exists_ofFile_of_ofFiles hfiles
    obtain ⟨cause, hcause, rfl⟩ := ofFile_eq_error_iff.mp hname
    exact ⟨name, hmem, cause, hcause, rfl⟩
  | ok reports =>
    -- every file of the list would have its report
    obtain ⟨name, hmem, hname⟩ := h
    have hall := ofFiles_eq_ok_iff.mp hfiles
    obtain ⟨i, hi, rfl⟩ := List.getElem_of_mem hmem
    have hfile := hall.get hi (hall.length_eq ▸ hi)
    exact absurd (reads_of_ofFile hfile) hname

end Report

end ScalarLang
