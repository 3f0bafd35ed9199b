import Mathlib
import NemoRL.Error
import NemoRL.Lib.Traced
import NemoRL.Lib.Transition

/-!
# The checkpoint manager

A checkpoint is saved into a temporary directory, which is then renamed. The directories of
the checkpoint directory are `tmp_step_N`, `step_N` and `old_step_N`. A removal unlinks the
entries of a directory one by one, in the order in which it comes by them, and a crash
leaves what it has not unlinked yet.

Metrics are elements of a bounded linear order: floating point numbers other than nan, with
the infinities that stand for a missing metric.

## Main definitions

* `finalizeCheckpoint` — move a temporary directory to its place.
* `getLatestCheckpointPath` — the checkpoint to resume from.
* `system` — saves that crash at any point.
-/

namespace NemoRL.Utils

open Lib

/-! ## The checkpoint directory -/

/-- The directories of a checkpoint directory. -/
inductive CheckpointPath
  | tmp (step : ℕ)
  | step (step : ℕ)
  | old (step : ℕ)
  /-- A directory with any other name, such as `step_4-hf`. -/
  | other (name : String)
  deriving DecidableEq, Repr

/-- The name of a directory. -/
def CheckpointPath.name : CheckpointPath → String
  | tmp n => s!"tmp_step_{n}"
  | step n => s!"step_{n}"
  | old n => s!"old_step_{n}"
  | other name => name

/-- What a directory holds: the training info, or another file with its text. -/
inductive Entry (R : Type)
  | trainingInfo (metrics : List (String × R))
  | file (path text : String)
  deriving DecidableEq, Repr

/-- The metrics of an entry that is the training info. -/
def Entry.metrics? {R : Type} : Entry R → Option (List (String × R))
  | trainingInfo metrics => some metrics
  | file _ _ => none

/-- Two entries at the same place. -/
def Entry.samePath {R : Type} : Entry R → Entry R → Bool
  | trainingInfo _, trainingInfo _ => true
  | file path _, file path' _ => path == path'
  | _, _ => false

/-- A directory, with the entries that the save of it wrote, the training info among them. -/
structure Dir (R : Type) where
  entries : List (Entry R)
  saved : List (Entry R)
  exists_metrics : ∃ entry ∈ saved, entry.metrics?.isSome

/-- A directory that holds everything that was saved. -/
def Dir.Complete {R : Type} (d : Dir R) : Prop := d.entries = d.saved

/-- The checkpoint directory. -/
abbrev FS (R : Type) := AList fun _ : CheckpointPath => Dir R

/-- A call of the checkpoint manager. -/
abbrev FsM (R α : Type) := Traced (FS R) PyError α

section Operations
variable {R : Type}

/-- Whether a directory exists. -/
def pathExists (path : CheckpointPath) : FsM R Bool := Traced.read fun fs => (fs.lookup path).isSome

/-- Rename a directory. A directory in its place is replaced only when it is empty. -/
def rename (path target : CheckpointPath) : FsM R Unit := Traced.op fun fs =>
  match fs.lookup path with
  | none => .error ⟨.fileNotFoundError,
      s!"[Errno 2] No such file or directory: '{path.name}' -> '{target.name}'"⟩
  | some d =>
    if ((fs.lookup target).map Dir.entries).getD [] = [] then
      .ok ((fs.erase path).insert target d)
    else .error ⟨.osError, s!"[Errno 39] Directory not empty: '{path.name}' -> '{target.name}'"⟩

/-- Unlink the first entry of a directory. -/
def unlink (path : CheckpointPath) : FsM R Unit := Traced.op fun fs =>
  match fs.lookup path with
  | none => .error ⟨.fileNotFoundError, s!"[Errno 2] No such file or directory: '{path.name}'"⟩
  | some d => .ok (fs.insert path { d with entries := d.entries.tail })

/-- Remove an empty directory. -/
def rmdir (path : CheckpointPath) : FsM R Unit := Traced.op fun fs =>
  match fs.lookup path with
  | none => .error ⟨.fileNotFoundError, s!"[Errno 2] No such file or directory: '{path.name}'"⟩
  | some d =>
    if d.entries = [] then .ok (fs.erase path)
    else .error ⟨.osError, s!"[Errno 39] Directory not empty: '{path.name}'"⟩

/-- Remove a directory with its entries. -/
def rmtree (path : CheckpointPath) : FsM R Unit := do
  let entries ← Traced.read fun fs => ((fs.lookup path).map Dir.entries).getD []
  Traced.forEach entries fun _ => unlink path
  rmdir path

end Operations

/-! ## The manager -/

/-- The configuration that saving reads. -/
structure CheckpointingConfig where
  metricName : Option String
  higherIsBetter : Bool
  keepTopK : Option ℤ

/-- The steps that have a directory. -/
def stepDirs {R : Type} (fs : FS R) : List ℕ :=
  fs.keys.filterMap fun path => match path with
    | .step n => some n
    | _ => none

/-- The checkpoints with training info: their step and their metrics. -/
def loadCheckpointHistory {R : Type} (fs : FS R) : List (ℕ × List (String × R)) :=
  (stepDirs fs).filterMap fun n => do
    let d ← fs.lookup (.step n)
    let metrics ← d.entries.findSome? Entry.metrics?
    return (n, metrics)

/-- The checkpoint with the highest step. -/
def getLatestCheckpointPath {R : Type} (fs : FS R) : Option ℕ :=
  ((stepDirs fs).mergeSort fun m n => m ≤ n).getLast?

section Manager
variable {R : Type} [LinearOrder R] [BoundedOrder R] (config : CheckpointingConfig)

/-- Sort a history, best checkpoints first. Equal metrics are sorted by step. -/
def sortHistory (history : List (ℕ × List (String × R))) : List (ℕ × List (String × R)) :=
  match config.metricName with
  | none => history.mergeSort fun c c' => c'.1 ≤ c.1
  | some metric =>
    if config.higherIsBetter then
      let key := fun c : ℕ × List (String × R) => toLex ((c.2.lookup metric).getD ⊥, c.1)
      history.mergeSort fun c c' => key c' ≤ key c
    else
      let key := fun c : ℕ × List (String × R) => toLex ((c.2.lookup metric).getD ⊤, -(c.1 : ℤ))
      history.mergeSort fun c c' => key c ≤ key c'

/-- The elements of a list from an index on, which counts from the end when negative. -/
def sliceFrom {α : Type} (k : ℤ) (l : List α) : List α :=
  l.drop (if k < 0 then l.length + k else k).toNat

/-- Remove the checkpoints outside of the best ones. -/
def removeOldCheckpoints (excludeLatest : Bool) : FsM R Unit :=
  match config.keepTopK with
  | none => pure ()
  | some k => do
    let history ← Traced.read loadCheckpointHistory
    let latestStep := (history.map Prod.fst).max?
    Traced.forEach (sliceFrom k (sortHistory config history)) fun checkpoint =>
      if excludeLatest ∧ some checkpoint.1 = latestStep then pure ()
      else rmtree (.step checkpoint.1)

/-- Put the temporary directory of a step in the place of its checkpoint. -/
def replaceCheckpoint (step : ℕ) : FsM R Unit := do
  rename (.step step) (.old step)
  rename (.tmp step) (.step step)
  let leftover ← pathExists (.old step)
  if leftover then rmtree (.old step) else pure ()

/-- Complete a checkpoint: move it from its temporary directory to its place. -/
def finalizeCheckpoint (step : ℕ) : FsM R Unit := do
  let overwrite ← pathExists (.step step)
  if overwrite then replaceCheckpoint step else rename (.tmp step) (.step step)
  removeOldCheckpoints config true

end Manager

/-! ## Saves that may crash -/

section Saves
variable {R : Type}

/-- Write an entry of a directory. -/
def writeEntry (entries : List (Entry R)) (entry : Entry R) : List (Entry R) :=
  if entries.any entry.samePath then
    entries.map fun e => if entry.samePath e then entry else e
  else entries ++ [entry]

/-- What a save writes. -/
structure Contents (R : Type) where
  trainingInfo : List (String × R)
  runConfig : Option String
  /-- The files that the algorithm loop saves. -/
  files : List (String × String)

/-- The entries that a save writes, in order. -/
def Contents.entries (contents : Contents R) : List (Entry R) :=
  Entry.trainingInfo contents.trainingInfo ::
    ((contents.runConfig.map fun text => ("config.yaml", text)).toList ++ contents.files).map
      fun file => Entry.file file.1 file.2

/-- Writing the training info, or another file beside it, leaves training info. -/
theorem exists_metrics_writeEntry {entries : List (Entry R)} (entry : Entry R)
    (h : entry.metrics?.isSome ∨ ∃ e ∈ entries, e.metrics?.isSome) :
    ∃ e ∈ writeEntry entries entry, e.metrics?.isSome := by
  rw [writeEntry]
  cases entry with
  | trainingInfo metrics =>
    by_cases hany : entries.any (Entry.trainingInfo metrics).samePath
    · obtain ⟨e, he, hsame⟩ := List.any_eq_true.mp hany
      rw [if_pos hany]
      refine ⟨.trainingInfo metrics, List.mem_map.mpr ⟨e, he, ?_⟩, rfl⟩
      rw [if_pos hsame]
    · rw [if_neg hany]
      exact ⟨.trainingInfo metrics, by simp, rfl⟩
  | file path text =>
    obtain ⟨e, he, hmetrics⟩ := h.resolve_left (by simp [Entry.metrics?])
    have hsame : (Entry.file path text).samePath e = false := by
      cases e with
      | trainingInfo => rfl
      | file => simp [Entry.metrics?] at hmetrics
    by_cases hany : entries.any (Entry.file path text).samePath
    · rw [if_pos hany]
      exact ⟨e, List.mem_map.mpr ⟨e, he, by simp [hsame]⟩, hmetrics⟩
    · rw [if_neg hany]
      exact ⟨e, List.mem_append_left _ he, hmetrics⟩

theorem exists_metrics_foldl {entries written : List (Entry R)}
    (h : ∃ e ∈ entries, e.metrics?.isSome) :
    ∃ e ∈ written.foldl writeEntry entries, e.metrics?.isSome := by
  induction written generalizing entries with
  | nil => exact h
  | cons entry written ih => exact ih (exists_metrics_writeEntry entry (.inr h))

theorem exists_metrics_contents (contents : Contents R) (existing : List (Entry R)) :
    ∃ e ∈ contents.entries.foldl writeEntry existing, e.metrics?.isSome := by
  rw [Contents.entries, List.foldl_cons]
  exact exists_metrics_foldl (exists_metrics_writeEntry _ (.inl rfl))

/-- Initialize the temporary directory of a step, in which the algorithm loop then saves its
files. What an earlier save left there is overwritten file by file. -/
def initTmpCheckpoint (step : ℕ) (contents : Contents R) (fs : FS R) : FS R :=
  let existing := ((fs.lookup (.tmp step)).map Dir.entries).getD []
  let entries := contents.entries.foldl writeEntry existing
  fs.insert (.tmp step) ⟨entries, entries, exists_metrics_contents contents existing⟩

/-- What happens to the checkpoint directory. -/
inductive Event (R : Type)
  /-- A checkpoint is saved and finalized. With a number, the finalization crashes after so
  many operations. -/
  | save (step : ℕ) (contents : Contents R) (crash : Option ℕ)
  /-- A save crashes before it is finalized, and leaves a temporary directory. -/
  | interruptedSave (step : ℕ) (d : Dir R)

variable [LinearOrder R] [BoundedOrder R] (config : CheckpointingConfig)

/-- The checkpoint directory after an event. -/
def step (fs : FS R) : Event R → Option (FS R)
  | .save n contents none =>
    some ((finalizeCheckpoint config n).final (initTmpCheckpoint n contents fs))
  | .save n contents (some ops) =>
    (finalizeCheckpoint config n).crash (initTmpCheckpoint n contents fs) ops
  | .interruptedSave n d => some (fs.insert (.tmp n) d)

/-- Saves into a checkpoint directory that is empty at first. -/
def system : System (FS R) (Event R) where
  init fs := fs = ∅
  step := step config

end Saves

/-! ## Recovery -/

section Recovery
variable {R : Type} [LinearOrder R] [BoundedOrder R]

/-- The checkpoint of a step is there with everything that was saved. -/
def HasComplete (fs : FS R) (n : ℕ) : Prop := ∃ d, fs.lookup (.step n) = some d ∧ d.Complete

/-- After what happened to a checkpoint directory, the latest checkpoint is complete and not
older than a complete checkpoint from before, and the checkpoint of a step can be saved. -/
structure Recovers (config : CheckpointingConfig) (n : ℕ) (fs fs' : FS R) : Prop where
  complete : ∀ k, getLatestCheckpointPath fs' = some k → HasComplete fs' k
  latest : ∀ m, HasComplete fs m → ∃ k, getLatestCheckpointPath fs' = some k ∧ m ≤ k
  saves : ∀ contents, ∃ fs'',
    (finalizeCheckpoint config n).outcome (initTmpCheckpoint n contents fs') = .ok ((), fs'')

end Recovery
end NemoRL.Utils
