import Mathlib.Algebra.Order.BigOperators.Group.Finset
import Mathlib.Data.Fintype.Card
import ScalarLang.Proofs.Batch.Sequence

/-!
# Reports on files worked on at once

Each file has a job, and a number of workers take the steps of the jobs in any order. A job starts
in the order of the names and when a worker is free. It gives up if the work has been canceled;
otherwise it reads its file and puts down the report in its own place. The first error that a job
ends with is kept, and only then the work is canceled.

The module introduces:

* `Stage`, `Job` and `Shared`: how far a job has come, what it has put down, and what all jobs see;
* `Pool`: all jobs together, and `Pool.advance`, the next step of one of them;
* `Pool.Admits`: the interleavings of the steps that a number of workers allows;
* `Pool.result`: what is returned after all jobs have ended.

What a job does alone is `Job.sound_advance` and `Job.remaining_advance_lt`; the former carries over
to every interleaving (`Pool.sound_after`), the latter bounds its length. Workers are never more
than there may be (`Pool.busy_after_le`), and the result is that of taking the files one after
another (`Pool.result_of_interleaving`).
-/

namespace ScalarLang.Batch

/-- How far a job has come. -/
inductive Stage
  | waiting
  | started
  /-- The work was not canceled when the job looked. -/
  | cleared
  | reported (report : Report)
  | failed (reason : Error)
  /-- The error of this job has been kept, but the work is not canceled yet. -/
  | canceling
  | ended
  deriving DecidableEq

/-- Whether a job occupies a worker. -/
def Stage.busy (stage : Stage) : Bool :=
  stage ≠ .waiting ∧ stage ≠ .ended

/-- How many steps a job can still take. -/
def Stage.remaining : Stage → Nat
  | waiting => 5
  | started => 4
  | cleared => 3
  | failed _ => 2
  | reported _ | canceling => 1
  | ended => 0

/-- The job of one file, and the report in its place. -/
structure Job where
  stage : Stage
  report : Option Report

/-- What all jobs see. -/
structure Shared where
  /-- The first error that a job has ended with. -/
  kept : Option Error
  canceled : Bool

/-- An error that has been kept is that of a file, and the work is canceled only after that. -/
structure Shared.Sound (read : Reader) (names : List String) (shared : Shared) : Prop where
  kept : ∀ reason, shared.kept = some reason →
    ∃ name ∈ names, Report.ofFile read name = .error reason
  canceled : shared.canceled = true → shared.kept.isSome

namespace Job

/-- The next step of a job. -/
def advance (read : Reader) (name : String) (shared : Shared) (job : Job) : Job × Shared :=
  match job.stage with
  | .waiting => ({ job with stage := .started }, shared)
  | .started =>
    if shared.canceled then ({ job with stage := .failed .canceled }, shared)
    else ({ job with stage := .cleared }, shared)
  | .cleared =>
    match Report.ofFile read name with
    | .ok report => ({ job with stage := .reported report }, shared)
    | .error reason => ({ job with stage := .failed reason }, shared)
  | .reported report => (⟨.ended, some report⟩, shared)
  | .failed reason =>
    match shared.kept with
    | none => ({ job with stage := .canceling }, { shared with kept := some reason })
    | some _ => ({ job with stage := .ended }, shared)
  | .canceling => ({ job with stage := .ended }, { shared with canceled := true })
  | .ended => (job, shared)

/-- A job agrees with its file, unless an error has been kept: then it need not have looked. -/
def Sound (read : Reader) (name : String) (shared : Shared) (job : Job) : Prop :=
  match job.stage with
  | .waiting | .started | .cleared => True
  | .reported report => Report.ofFile read name = .ok report
  | .failed reason => shared.kept.isSome ∨ Report.ofFile read name = .error reason
  | .canceling => shared.kept.isSome
  | .ended => shared.kept.isSome ∨
      ∃ report, job.report = some report ∧ Report.ofFile read name = .ok report

variable {read : Reader} {name : String} {shared : Shared} {job : Job}

/-- A job still agrees with its file when others have gone on. -/
theorem Sound.mono {shared' : Shared} (h : job.Sound read name shared)
    (hkept : shared.kept.isSome → shared'.kept.isSome) : job.Sound read name shared' := by
  unfold Sound at h ⊢
  cases hstage : job.stage with
  | waiting | started | cleared => trivial
  | reported report => simpa only [hstage] using h
  | failed reason =>
    simp only [hstage] at h ⊢
    exact h.imp_left hkept
  | canceling =>
    simp only [hstage] at h ⊢
    exact hkept h
  | ended =>
    simp only [hstage] at h ⊢
    exact h.imp_left hkept

/-- An error that has been kept stays. -/
theorem isSome_kept_advance (read : Reader) (name : String) (job : Job)
    (h : shared.kept.isSome) : (job.advance read name shared).2.kept.isSome := by
  fun_cases advance <;> first | exact h | rfl

/-- A step of a job keeps to its file. -/
theorem sound_advance {names : List String} (hname : name ∈ names)
    (hjob : job.Sound read name shared) (hshared : shared.Sound read names) :
    (job.advance read name shared).1.Sound read name (job.advance read name shared).2 ∧
      (job.advance read name shared).2.Sound read names := by
  fun_cases advance with
  | case1 hstage => exact ⟨trivial, hshared⟩
  | case2 hstage hcanceled => exact ⟨.inl (hshared.canceled hcanceled), hshared⟩
  | case3 hstage hcanceled => exact ⟨trivial, hshared⟩
  | case4 hstage report hreport => exact ⟨hreport, hshared⟩
  | case5 hstage reason hreason => exact ⟨.inr hreason, hshared⟩
  | case6 report hstage =>
    simp only [Sound, hstage] at hjob
    exact ⟨.inr ⟨report, rfl, hjob⟩, hshared⟩
  | case7 reason hstage hkept =>
    -- no error has been kept, so this one is not that of a canceled job
    simp only [Sound, hstage, hkept] at hjob
    have hfile : Report.ofFile read name = .error reason := by simpa using hjob
    refine ⟨rfl, ?_, fun _ => rfl⟩
    rintro _ ⟨⟩
    exact ⟨name, hname, hfile⟩
  | case8 reason hstage other hkept => exact ⟨.inl (by simp [hkept]), hshared⟩
  | case9 hstage =>
    simp only [Sound, hstage] at hjob
    exact ⟨.inl hjob, hshared.kept, fun _ => hjob⟩
  | case10 hstage => exact ⟨hjob, hshared⟩

/-- A step of a job that has not ended is one of those that remain. -/
theorem remaining_advance_lt (read : Reader) (name : String) (shared : Shared)
    (h : job.stage ≠ .ended) :
    (job.advance read name shared).1.stage.remaining < job.stage.remaining := by
  fun_cases advance <;> simp_all [Stage.remaining]

end Job

/-- The jobs of the named files. -/
structure Pool (names : List String) where
  jobs : Fin names.length → Job
  shared : Shared

namespace Pool

variable {names : List String}

/-- Before the first step. -/
def initial (names : List String) : Pool names :=
  ⟨fun _ => ⟨.waiting, none⟩, ⟨none, false⟩⟩

/-- The next step of one of the jobs. -/
def advance (read : Reader) (p : Pool names) (i : Fin names.length) : Pool names :=
  let next := (p.jobs i).advance read (names.get i) p.shared
  ⟨Function.update p.jobs i next.1, next.2⟩

/-- The steps of some jobs, in order. -/
def after (read : Reader) (p : Pool names) (schedule : List (Fin names.length)) : Pool names :=
  schedule.foldl (advance read) p

/-- How many workers are occupied. -/
def busy (p : Pool names) : Nat :=
  (Finset.univ.filter fun i => (p.jobs i).stage.busy).card

/-- A job can take its next step. To start, it has to be its turn, and a worker has to be free
unless their number is not limited. -/
def Enabled (workers : Int) (p : Pool names) (i : Fin names.length) : Prop :=
  (p.jobs i).stage ≠ .ended ∧
    ((p.jobs i).stage = .waiting →
      (∀ j < i, (p.jobs j).stage ≠ .waiting) ∧ (workers ≤ 0 ∨ p.busy < workers))

instance (workers : Int) (p : Pool names) (i : Fin names.length) :
    Decidable (p.Enabled workers i) :=
  inferInstanceAs (Decidable (_ ∧ _))

/-- The steps of some jobs can be taken in this order. -/
def Admits (read : Reader) (workers : Int) (p : Pool names) : List (Fin names.length) → Prop
  | [] => True
  | i :: schedule => p.Enabled workers i ∧ (p.advance read i).Admits read workers schedule

instance decidableAdmits (read : Reader) (workers : Int) (p : Pool names) :
    (schedule : List (Fin names.length)) → Decidable (p.Admits read workers schedule)
  | [] => .isTrue trivial
  | i :: schedule =>
    have := decidableAdmits read workers (p.advance read i) schedule
    inferInstanceAs (Decidable (_ ∧ _))

/-- All jobs have ended. -/
def Finished (p : Pool names) : Prop :=
  ∀ i, (p.jobs i).stage = .ended

instance (p : Pool names) : Decidable p.Finished :=
  inferInstanceAs (Decidable (∀ _, _))

/-- What is returned in the end: the error that has been kept, or what is in the places for the
reports. -/
def result (p : Pool names) : Except Error (List (Option Report)) :=
  match p.shared.kept with
  | some reason => .error reason
  | none => .ok (List.ofFn fun i => (p.jobs i).report)

/-! ## Interleavings end -/

variable {read : Reader} {workers : Int} {p : Pool names}

/-- The steps of two schedules one after the other. -/
theorem admits_append {first second : List (Fin names.length)} :
    p.Admits read workers (first ++ second) ↔
      p.Admits read workers first ∧ (p.after read first).Admits read workers second := by
  induction first generalizing p with
  | nil => simp [Admits, after]
  | cons i first ih => simp only [List.cons_append, Admits, ih, after, List.foldl_cons, and_assoc]

/-- How many steps can still be taken. -/
def remaining (p : Pool names) : Nat :=
  ∑ i, (p.jobs i).stage.remaining

theorem remaining_initial : (initial names).remaining = 5 * names.length := by
  simp [remaining, initial, Stage.remaining, Nat.mul_comm]

/-- A step of one job is a step of them all. -/
theorem remaining_advance_lt (read : Reader) {i : Fin names.length}
    (h : (p.jobs i).stage ≠ .ended) : (p.advance read i).remaining < p.remaining := by
  have hstep := Job.remaining_advance_lt read (names.get i) p.shared h
  apply Finset.sum_lt_sum
  · intro j _
    by_cases hj : j = i
    · subst hj
      simpa [advance] using hstep.le
    · simp [advance, hj]
  · exact ⟨i, Finset.mem_univ i, by simpa [advance] using hstep⟩

/-- An interleaving is no longer than the steps that remain. -/
theorem length_le_remaining {schedule : List (Fin names.length)}
    (h : p.Admits read workers schedule) : schedule.length ≤ p.remaining := by
  induction schedule generalizing p with
  | nil => exact Nat.zero_le _
  | cons i schedule ih =>
    have hrest := ih h.2
    have hstep := remaining_advance_lt read h.1.1
    rw [List.length_cons]
    omega

/-- Until all jobs have ended, one of them can take a step. -/
theorem exists_enabled (workers : Int) (h : ¬ p.Finished) : ∃ i, p.Enabled workers i := by
  by_cases hbusy : ∃ i, (p.jobs i).stage.busy
  · -- a job that has started waits for nothing
    obtain ⟨i, hi⟩ := hbusy
    have hi : (p.jobs i).stage ≠ .waiting ∧ (p.jobs i).stage ≠ .ended := by
      simpa [Stage.busy] using hi
    exact ⟨i, hi.2, fun hwaiting => absurd hwaiting hi.1⟩
  · -- all workers are free, and the first job that waits can have one
    have hidle : p.busy = 0 := by
      rw [busy, Finset.card_eq_zero, Finset.filter_eq_empty_iff]
      intro i _ hi
      exact hbusy ⟨i, hi⟩
    have hwaiting : {i | (p.jobs i).stage = .waiting}.Nonempty := by
      obtain ⟨i, hi⟩ := not_forall.mp h
      refine ⟨i, ?_⟩
      by_contra hne
      exact hbusy ⟨i, by simpa [Stage.busy] using ⟨hne, hi⟩⟩
    obtain ⟨i, hi, hfirst⟩ := wellFounded_lt.has_min _ hwaiting
    have hi : (p.jobs i).stage = .waiting := hi
    refine ⟨i, by simp [hi], fun _ => ⟨fun j hj hwaits => hfirst j hwaits hj, ?_⟩⟩
    rw [hidle]
    omega

/-- The jobs can go on until all have ended. -/
theorem exists_finished (read : Reader) (workers : Int) (p : Pool names) :
    ∃ schedule, p.Admits read workers schedule ∧ (p.after read schedule).Finished := by
  by_cases h : p.Finished
  · exact ⟨[], trivial, h⟩
  · obtain ⟨i, hi⟩ := exists_enabled workers h
    have := remaining_advance_lt read hi.1
    obtain ⟨schedule, hadmits, hfinished⟩ := exists_finished read workers (p.advance read i)
    exact ⟨i :: schedule, ⟨hi, hadmits⟩, hfinished⟩
termination_by p.remaining

/-! ## Workers -/

/-- A step occupies another worker only if a job starts with it. -/
theorem busy_advance_le (read : Reader) {i : Fin names.length} (h : p.Enabled workers i)
    (hworkers : 0 < workers) (hp : p.busy ≤ workers) : (p.advance read i).busy ≤ workers := by
  have hothers (j : Fin names.length) (hj : j ≠ i) : (p.advance read i).jobs j = p.jobs j := by
    simp [advance, hj]
  by_cases hwaiting : (p.jobs i).stage = .waiting
  · -- there was a free worker
    have hfree : p.busy < workers := (h.2 hwaiting).2.resolve_left (by omega)
    have hsubset : (Finset.univ.filter fun j => ((p.advance read i).jobs j).stage.busy) ⊆
        insert i (Finset.univ.filter fun j => (p.jobs j).stage.busy) := by
      intro j hj
      by_cases hji : j = i
      · simp [hji]
      · simpa [hji, hothers j hji] using hj
    have hcard : (p.advance read i).busy ≤ p.busy + 1 :=
      (Finset.card_le_card hsubset).trans (Finset.card_insert_le _ _)
    omega
  · -- the job has its worker already
    have hbusy : (p.jobs i).stage.busy := by simpa [Stage.busy] using ⟨hwaiting, h.1⟩
    have hcard : (p.advance read i).busy ≤ p.busy := by
      apply Finset.card_le_card
      intro j hj
      by_cases hji : j = i
      · simpa [hji] using hbusy
      · simpa [hothers j hji] using hj
    omega

/-- A limited number of workers is never exceeded. -/
theorem busy_after_le (hworkers : 0 < workers) {schedule : List (Fin names.length)}
    (h : p.Admits read workers schedule) (hp : p.busy ≤ workers) :
    (p.after read schedule).busy ≤ workers := by
  induction schedule generalizing p with
  | nil => exact hp
  | cons i schedule ih => exact ih h.2 (busy_advance_le read h.1 hworkers hp)

/-! ## What holds along interleavings -/

/-- The jobs agree with their files. -/
structure Sound (read : Reader) (p : Pool names) : Prop where
  jobs : ∀ i, (p.jobs i).Sound read (names.get i) p.shared
  shared : p.shared.Sound read names

theorem sound_initial (read : Reader) : (initial names).Sound read where
  jobs := fun _ => trivial
  shared := ⟨by simp [initial], by simp [initial]⟩

/-- A step of one job keeps to the files; the other jobs only see that an error has been kept. -/
theorem sound_advance (h : p.Sound read) (i : Fin names.length) :
    (p.advance read i).Sound read := by
  obtain ⟨hjob, hshared⟩ := Job.sound_advance (List.get_mem names i) (h.jobs i) h.shared
  refine ⟨fun j => ?_, hshared⟩
  by_cases hj : j = i
  · subst hj
    simpa [advance] using hjob
  · have hother := (h.jobs j).mono (Job.isSome_kept_advance read (names.get i) (p.jobs i))
    simpa [advance, hj] using hother

/-- All steps keep to the files. -/
theorem sound_after (h : p.Sound read) (schedule : List (Fin names.length)) :
    (p.after read schedule).Sound read := by
  induction schedule generalizing p with
  | nil => exact h
  | cons i schedule ih => exact ih (sound_advance h i)

/-! ## The result -/

/-- An error that is returned is that of a file. -/
theorem exists_unreadable_of_kept (h : p.Sound read) {reason : Error}
    (hkept : p.shared.kept = some reason) :
    ∃ name ∈ names, ∃ cause, read name = .error cause ∧ reason = .unreadable name cause := by
  obtain ⟨name, hmem, hfile⟩ := h.shared.kept reason hkept
  obtain ⟨cause, hcause⟩ := Report.ofFile_eq_error_iff.mp hfile
  exact ⟨name, hmem, cause, hcause⟩

/-- Without an error, every report is in its place. -/
theorem exists_report_of_finished (h : p.Sound read) (hfinished : p.Finished)
    (hkept : p.shared.kept = none) (i : Fin names.length) :
    ∃ report, (p.jobs i).report = some report ∧
      Report.ofFile read (names.get i) = .ok report := by
  have hjob := h.jobs i
  rw [Job.Sound, hfinished i] at hjob
  simpa [hkept] using hjob

/-- The reports on files that can all be read. -/
theorem result_of_reads (h : p.Sound read) (hfinished : p.Finished)
    (hreads : ∀ name ∈ names, read.Reads name) {reports : List Report}
    (hreports : Report.ofFiles read false names = .ok reports) :
    p.result = .ok (reports.map some) := by
  have hkept : p.shared.kept = none := by
    by_contra hne
    obtain ⟨reason, hreason⟩ := Option.ne_none_iff_exists'.mp hne
    obtain ⟨name, hmem, cause, hcause, -⟩ := exists_unreadable_of_kept h hreason
    exact Reader.not_reads_iff.mpr ⟨cause, hcause⟩ (hreads name hmem)
  have hall := Report.ofFiles_eq_ok_iff.mp hreports
  have hplaces : List.ofFn (fun i => (p.jobs i).report) = reports.map some := by
    apply List.ext_getElem (by simp [hall.length_eq])
    intro i hi hi'
    rw [List.getElem_ofFn, List.getElem_map]
    have hlt : i < names.length := by simpa using hi
    -- the report in this place and the one of the list are both that of the same file
    obtain ⟨report, hreport, hfile⟩ := exists_report_of_finished h hfinished hkept ⟨i, hlt⟩
    have hsame := hall.get hlt (hall.length_eq ▸ hlt)
    rw [hfile, Except.ok.injEq] at hsame
    rw [hreport, hsame]
    rfl
  rw [result, hkept, ← hplaces]

/-- A file that cannot be read is reported. -/
theorem result_of_not_reads (h : p.Sound read) (hfinished : p.Finished)
    (hreads : ∃ name ∈ names, ¬ read.Reads name) :
    ∃ name ∈ names, ∃ cause, read name = .error cause ∧
      p.result = .error (.unreadable name cause) := by
  cases hkept : p.shared.kept with
  | some reason =>
    obtain ⟨name, hmem, cause, hcause, rfl⟩ := exists_unreadable_of_kept h hkept
    exact ⟨name, hmem, cause, hcause, by rw [result, hkept]⟩
  | none =>
    -- then the file would have been read
    obtain ⟨name, hmem, hname⟩ := hreads
    obtain ⟨i, rfl⟩ := List.get_of_mem hmem
    obtain ⟨report, -, hfile⟩ := exists_report_of_finished h hfinished hkept i
    exact absurd (Report.reads_of_ofFile hfile) hname

/-- If no two different files cannot be read, the result is that of taking the files one after
another. -/
theorem result_eq_ofFiles (h : p.Sound read) (hfinished : p.Finished)
    (hunique : ∀ first ∈ names, ∀ second ∈ names,
      ¬ read.Reads first → ¬ read.Reads second → first = second) :
    p.result = (Report.ofFiles read false names).map (List.map some) := by
  by_cases hreads : ∀ name ∈ names, read.Reads name
  · obtain ⟨reports, hreports⟩ := Report.exists_ofFiles_of_reads hreads
    rw [result_of_reads h hfinished hreads hreports, hreports]
    rfl
  · -- both runs name a file that cannot be read, and there is only one
    push Not at hreads
    obtain ⟨first, hfirst, cause, hcause, hresult⟩ := result_of_not_reads h hfinished hreads
    obtain ⟨second, hsecond, other, hother, hfiles⟩ := Report.exists_unreadable_of_ofFiles hreads
    obtain rfl := hunique first hfirst second hsecond (Reader.not_reads_iff.mpr ⟨_, hcause⟩)
      (Reader.not_reads_iff.mpr ⟨_, hother⟩)
    obtain rfl : cause = other := by simpa [hcause] using hother
    rw [hresult, hfiles]
    rfl

/-- Whatever the number of workers and the order of the steps, the work comes to an end. Then there
is a report on each file in its place if all of them can be read, and the error of a file that
cannot be read otherwise. If no two different files cannot be read, that is what taking the files
one after another gives. -/
theorem result_of_interleaving (read : Reader) (workers : Int) (names : List String)
    (schedule : List (Fin names.length))
    (h : (initial names).Admits read workers schedule) :
    schedule.length ≤ 5 * names.length ∧
    (∃ rest, (initial names).Admits read workers (schedule ++ rest) ∧
      ((initial names).after read (schedule ++ rest)).Finished) ∧
    (((initial names).after read schedule).Finished →
      ((∀ name ∈ names, read.Reads name) →
        ∃ reports, ((initial names).after read schedule).result = .ok (reports.map some) ∧
          List.Forall₂ (fun name report => Report.ofFile read name = .ok report) names reports) ∧
      ((∃ name ∈ names, ¬ read.Reads name) →
        ∃ name ∈ names, ∃ cause, read name = .error cause ∧
          ((initial names).after read schedule).result = .error (.unreadable name cause)) ∧
      ((∀ first ∈ names, ∀ second ∈ names,
          ¬ read.Reads first → ¬ read.Reads second → first = second) →
        ((initial names).after read schedule).result
          = (Report.ofFiles read false names).map (List.map some))) := by
  refine ⟨remaining_initial ▸ length_le_remaining h, ?_, fun hfinished => ?_⟩
  · obtain ⟨rest, hrest, hfinished⟩ :=
      exists_finished read workers ((initial names).after read schedule)
    refine ⟨rest, admits_append.mpr ⟨h, hrest⟩, ?_⟩
    rwa [after, List.foldl_append]
  · have hsound := sound_after (sound_initial read) schedule
    refine ⟨fun hreads => ?_, result_of_not_reads hsound hfinished,
      result_eq_ofFiles hsound hfinished⟩
    obtain ⟨reports, hreports⟩ := Report.exists_ofFiles_of_reads hreads
    exact ⟨reports, result_of_reads hsound hfinished hreads hreports,
      Report.ofFiles_eq_ok_iff.mp hreports⟩

/-- Two workers on four files. The second file is not there, and the work is canceled while the
first one is read. -/
theorem result_of_interleaving_sample :
    let files : FileTree := (⟨[]⟩ : FileTree).insert "a" (.file (Utf8.encode "int x = y;".toList))
    let names := ["a", "b", "a", "b"]
    let schedule : List (Fin names.length) := [0, 1, 1, 1, 0, 1, 1, 2, 2, 0, 2, 3, 3, 0, 3]
    (initial names).Admits files.read 2 schedule ∧
      ((initial names).after files.read schedule).Finished ∧
      ((initial names).after files.read schedule).result
        = (Report.ofFiles files.read false names).map (List.map some) := by
  intro files names schedule
  have hadmits : (initial names).Admits files.read 2 schedule := by decide +kernel
  have hfinished : ((initial names).after files.read schedule).Finished := by decide +kernel
  have hunique : ∀ first ∈ names, ∀ second ∈ names,
      ¬ files.read.Reads first → ¬ files.read.Reads second → first = second := by decide +kernel
  have hresult := result_of_interleaving files.read 2 names schedule hadmits
  exact ⟨hadmits, hfinished, (hresult.2.2 hfinished).2.2 hunique⟩

end Pool

end ScalarLang.Batch
