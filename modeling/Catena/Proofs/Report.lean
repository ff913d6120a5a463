import Catena.Report

/-!
# What a log holds

A log without errors is clean. Notices and changes of the current file leave it clean, and the
diagnostics that are then reported are all the errors that it holds: under the file of the diagnostic,
or under the current file if they name none.
-/

namespace Catena

/-- The entry that a diagnostic makes in a log. -/
def Diagnostic.entry (d : Diagnostic) : LogEntry :=
  ⟨.error, d.annotated, d.position⟩

theorem Log.entries_add_of_nil {log : Log} (h : log.entries = []) (file : String)
    (entry : LogEntry) : (log.add file entry).entries = [(file, [entry])] := by
  unfold Log.add OrderedMap.get? OrderedMap.insert
  rw [h]
  rfl

theorem Log.entries_add_of_single {log : Log} {file : String} {entries : List LogEntry}
    (h : log.entries = [(file, entries)]) (entry : LogEntry) :
    (log.add file entry).entries = [(file, entries ++ [entry])] := by
  unfold Log.add OrderedMap.get? OrderedMap.insert
  rw [h, List.lookup_cons_self]
  dsimp only [OrderedMap.insertEntry]
  rw [beq_self_eq_true, if_pos rfl]
  rfl

namespace FileLog

/-- No error has been reported. -/
def Clean (l : FileLog) : Prop :=
  l.errors.entries = []

/-- The errors are these diagnostics, in order, all under one file. -/
def HoldsOnly (l : FileLog) (file : String) (ds : List Diagnostic) : Prop :=
  l.errors.entries = [(file, ds.map Diagnostic.entry)]

variable {l : FileLog}

/-- The file of a diagnostic is current from then on. -/
theorem file_report (l : FileLog) (d : Diagnostic) :
    (Reporter.report l d).file = d.file.getD l.file := by
  unfold Reporter.report
  cases d.file <;> rfl

/-- **A diagnostic that is reported to a clean log is its only error.** -/
theorem Clean.report (h : l.Clean) (d : Diagnostic) :
    (Reporter.report l d).HoldsOnly (d.file.getD l.file) [d] := by
  unfold Reporter.report
  cases d.file with
  | none => exact Log.entries_add_of_nil h l.file d.entry
  | some file => exact Log.entries_add_of_nil h file d.entry

theorem HoldsOnly.foldl_report {ds : List Diagnostic} (h : l.HoldsOnly l.file ds)
    {more : List Diagnostic} (hmore : ∀ d ∈ more, d.file = none) :
    (more.foldl Reporter.report l).HoldsOnly l.file (ds ++ more) := by
  induction more generalizing l ds with
  | nil => rwa [List.append_nil]
  | cons d more ih =>
    obtain ⟨hd, hmore⟩ := List.forall_mem_cons.1 hmore
    have hreported : (Reporter.report l d).HoldsOnly l.file (ds ++ [d]) := by
      unfold HoldsOnly Reporter.report
      rw [hd, List.map_append]
      exact Log.entries_add_of_single h d.entry
    have hfile : (Reporter.report l d).file = l.file := by rw [file_report, hd, Option.getD_none]
    rw [← hfile] at hreported
    rw [List.append_cons, ← hfile]
    exact ih hreported hmore

/-- **Diagnostics that name no file are filed together**, under the file that is current. -/
theorem Clean.foldl_report (h : l.Clean) {ds : List Diagnostic} (hds : ∀ d ∈ ds, d.file = none)
    (hsome : ds ≠ []) : (ds.foldl Reporter.report l).HoldsOnly l.file ds := by
  cases ds with
  | nil => exact absurd rfl hsome
  | cons d ds =>
    obtain ⟨hd, hds⟩ := List.forall_mem_cons.1 hds
    have hreported := h.report d
    have hfile : (Reporter.report l d).file = l.file := by rw [file_report, hd, Option.getD_none]
    rw [hd, Option.getD_none, ← hfile] at hreported
    rw [← hfile]
    exact hreported.foldl_report hds

/-- Notices are kept apart from errors. -/
theorem errors_foldl_notice (l : FileLog) (ds : List Diagnostic) :
    (ds.foldl (fun log d => Reporter.notice log d.message d.position) l).errors = l.errors ∧
      (ds.foldl (fun log d => Reporter.notice log d.message d.position) l).file = l.file := by
  induction ds generalizing l with
  | nil => exact ⟨rfl, rfl⟩
  | cons d ds ih => exact ih (Reporter.notice l d.message d.position)

end FileLog

end Catena
