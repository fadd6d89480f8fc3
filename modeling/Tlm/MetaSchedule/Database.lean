import Tlm.Shared.Loop
import Mathlib.Data.List.Forall2

set_option autoImplicit false

namespace Tlm.MetaSchedule

open Cpp

structure ModuleEquality (M : Type) where
  equal : M → M → Bool
  hash : M → UInt64
  consistent : ∀ {a b}, equal a b = true → hash a = hash b

structure Workload (M : Type) where
  mod : M
  shash : UInt64

structure Files (M R : Type) where
  workloads : List (Workload M)
  records : List (Nat × R)

structure JSONDatabase (M R : Type) where
  equality : ModuleEquality M
  workloads2idx : List (Workload M × Nat)
  tuningRecords : List (Workload M × R)

variable {M R : Type}

def workloadEqual (equality : ModuleEquality M) (a b : Workload M) : Bool :=
  a.shash = b.shash ∧ equality.equal a.mod b.mod = true

def findWorkload (equality : ModuleEquality M) (workloads2idx : List (Workload M × Nat))
    (workload : Workload M) : Option (Workload M × Nat) :=
  workloads2idx.find? fun entry => workloadEqual equality workload entry.1

-- `emplace` does nothing when an equal key is there.
def emplace (equality : ModuleEquality M) (workloads2idx : List (Workload M × Nat))
    (entry : Workload M × Nat) : List (Workload M × Nat) :=
  if (findWorkload equality workloads2idx entry.1).isSome then workloads2idx
  else workloads2idx ++ [entry]

def rehash (equality : ModuleEquality M) (workload : Workload M) : Workload M :=
  let recalcHash := equality.hash workload.mod
  if recalcHash ≠ workload.shash then { workload with shash := recalcHash } else workload

def loadWorkloads (equality : ModuleEquality M) (files : Files M R) : List (Workload M × Nat) :=
  (files.workloads.map (rehash equality)).zipIdx.foldl (emplace equality) []

-- `workloads[index]` is not checked.
def attachRecord (workloads : List (Workload M)) (line : Nat × R) :
    Except Fault (Workload M × R) := do
  return (← found .undefined workloads[line.1]?, line.2)

def openDatabase (equality : ModuleEquality M) (files : Files M R) :
    Except Fault (JSONDatabase M R) := do
  let workloads := files.workloads.map (rehash equality)
  return ⟨equality, loadWorkloads equality files, ← files.records.mapM (attachRecord workloads)⟩

def commitWorkload (mod : M) (db : JSONDatabase M R) (files : Files M R) :
    Workload M × JSONDatabase M R × Files M R :=
  let workload : Workload M := ⟨mod, db.equality.hash mod⟩
  match findWorkload db.equality db.workloads2idx workload with
  | some entry => (entry.1, db, files)
  | none =>
    -- the index is the size of the map, whatever the number of lines
    (workload,
      { db with workloads2idx := db.workloads2idx ++ [(workload, db.workloads2idx.length)] },
      { files with workloads := files.workloads ++ [workload] })

-- `none` in the place of the line that `workloads2idx_.at` threw for.
def commitTuningRecord (workload : Workload M) (record : R) (db : JSONDatabase M R)
    (files : Files M R) : JSONDatabase M R × Option (Files M R) :=
  let db' := { db with tuningRecords := db.tuningRecords ++ [(workload, record)] }
  match findWorkload db.equality db.workloads2idx workload with
  | some entry => (db', some { files with records := files.records ++ [(entry.2, record)] })
  | none => (db', none)

inductive Commit (M R : Type) where
  | workload (mod : M)
  | record (workload : Workload M) (record : R)

structure Committed (M R : Type) where
  equality : ModuleEquality M
  workload : Workload M
  record : R

structure Running (M R : Type) where
  db : JSONDatabase M R
  files : Files M R
  log : List (Committed M R)

def Running.step (run : Running M R) : Commit M R → Running M R
  | .workload mod =>
    let (_, db, files) := commitWorkload mod run.db run.files
    { run with db, files }
  | .record workload record =>
    match commitTuningRecord workload record run.db run.files with
    | (db, none) => { run with db }
    | (db, some files) =>
      ⟨db, files, run.log ++ [⟨run.db.equality, workload, record⟩]⟩

structure Session (M R : Type) where
  equality : ModuleEquality M
  commits : List (Commit M R)

abbrev Disk (M R : Type) := Files M R × List (Committed M R)

def runSession (disk : Disk M R) (session : Session M R) : Except Fault (Disk M R) := do
  let db ← openDatabase session.equality disk.1
  let last := session.commits.foldl Running.step ⟨db, disk.1, disk.2⟩
  return (last.files, last.log)

def blank : Disk M R := (⟨[], []⟩, [])

section

variable {equality : ModuleEquality M} {lines loaded : List (Workload M × Nat)} {entry : Workload M × Nat}

theorem mem_foldl_emplace (member : entry ∈ lines.foldl (emplace equality) loaded) : entry ∈ loaded ∨ entry ∈ lines := by
  induction lines generalizing loaded with
  | nil => exact .inl member
  | cons line lines ih =>
    rcases ih member with early | late
    · unfold emplace at early
      split at early
      · exact .inl early
      · rcases List.mem_append.mp early with early | here
        · exact .inl early
        · exact .inr (List.mem_cons.mpr (.inl (List.mem_singleton.mp here)))
    · exact .inr (List.mem_cons_of_mem _ late)

theorem foldl_emplace_of_unequal
    (fresh : ∀ line ∈ lines, ∀ entry ∈ loaded, workloadEqual equality line.1 entry.1 = false)
    (unequal : lines.Pairwise fun earlier later => workloadEqual equality later.1 earlier.1 = false) :
    lines.foldl (emplace equality) loaded = loaded ++ lines := by
  induction lines generalizing loaded with
  | nil => simp
  | cons line lines ih =>
    have absent : findWorkload equality loaded line.1 = none := by
      rw [findWorkload, List.find?_eq_none]
      intro entry member
      simp [fresh line (by simp) entry member]
    obtain ⟨first, rest⟩ := List.pairwise_cons.mp unequal
    have entered : emplace equality loaded line = loaded ++ [line] := by
      simp [emplace, absent]
    rw [List.foldl_cons, entered, ih _ rest]
    · simp
    · intro later member entry known
      rcases List.mem_append.mp known with known | known
      · exact fresh later (List.mem_cons_of_mem _ member) entry known
      · exact List.mem_singleton.mp known ▸ first later member

def Points (files : Files M R) (entry : Workload M × Nat) : Prop :=
  ∃ stored, files.workloads[entry.2]? = some stored ∧ stored.mod = entry.1.mod

@[simp] theorem rehash_mod (workload : Workload M) : (rehash equality workload).mod = workload.mod := by
  simp only [rehash]
  split <;> rfl

theorem loadWorkloads_points {files : Files M R} (member : entry ∈ loadWorkloads equality files) : Points files entry := by
  rcases mem_foldl_emplace member with none | line
  · cases none
  · obtain ⟨stored, found, same⟩ : ∃ stored, files.workloads[entry.2]? = some stored ∧
        rehash equality stored = entry.1 := by
      simpa using List.mem_zipIdx_iff_getElem?.mp line
    exact ⟨stored, found, same ▸ (rehash_mod stored).symm⟩

def Unequal (equality : ModuleEquality M) (files : Files M R) : Prop :=
  files.workloads.Pairwise fun earlier later => equality.equal later.mod earlier.mod = false

theorem loadWorkloads_length {files : Files M R} (unequal : Unequal equality files) :
    (loadWorkloads equality files).length = files.workloads.length := by
  have pairs : (files.workloads.map (rehash equality)).zipIdx.Pairwise fun earlier later =>
      workloadEqual equality later.1 earlier.1 = false := by
    have keys : ((files.workloads.map (rehash equality)).zipIdx.map Prod.fst).Pairwise
        fun earlier later => workloadEqual equality later earlier = false := by
      rw [List.zipIdx_map_fst, List.pairwise_map]
      refine unequal.imp fun {earlier later} differs => ?_
      simp [workloadEqual, differs]
    exact List.pairwise_map.mp keys
  rw [loadWorkloads, foldl_emplace_of_unequal (by simp) pairs]
  simp

end

def Attaches (files : Files M R) (commit : Committed M R) (line : Nat × R) : Prop :=
  commit.record = line.2 ∧ ∃ stored, files.workloads[line.1]? = some stored ∧
    commit.equality.equal commit.workload.mod stored.mod = true

def Kept (files : Files M R) (log : List (Committed M R)) : Prop :=
  List.Forall₂ (Attaches files) log files.records

variable {files : Files M R}

theorem getElem?_appended {added stored : Workload M} {i : Nat} (found : files.workloads[i]? = some stored) :
    (files.workloads ++ [added])[i]? = some stored := by
  rw [List.getElem?_append_left (List.getElem?_eq_some_iff.mp found).1, found]

variable {entry : Workload M × Nat}

theorem Points.append (points : Points files entry) (added : Workload M) :
    Points { files with workloads := files.workloads ++ [added] } entry := by
  obtain ⟨stored, found, same⟩ := points
  exact ⟨stored, getElem?_appended found, same⟩

variable {log : List (Committed M R)}

theorem Kept.append (kept : Kept files log) (added : Workload M) :
    Kept { files with workloads := files.workloads ++ [added] } log := by
  refine List.Forall₂.imp (fun commit line attaches => ?_) kept
  obtain ⟨same, stored, found, equal⟩ := attaches
  exact ⟨same, stored, getElem?_appended found, equal⟩

theorem Kept.record (kept : Kept files log) {equality : ModuleEquality M}
    {workloads2idx : List (Workload M × Nat)} {workload : Workload M} (record : R)
    (chosen : findWorkload equality workloads2idx workload = some entry) (points : Points files entry) :
    Kept { files with records := files.records ++ [(entry.2, record)] }
      (log ++ [⟨equality, workload, record⟩]) := by
  obtain ⟨stored, found, same⟩ := points
  have equal : workloadEqual equality workload entry.1 = true := by
    simpa using List.find?_some chosen
  refine List.rel_append kept (.cons ⟨rfl, stored, found, ?_⟩ .nil)
  rw [same]
  simp only [workloadEqual, decide_eq_true_eq] at equal
  exact equal.2

structure Tight (run : Running M R) : Prop where
  points : ∀ entry ∈ run.db.workloads2idx, Points run.files entry
  size : run.db.workloads2idx.length = run.files.workloads.length
  kept : Kept run.files run.log

variable {run : Running M R}

theorem Tight.step (tight : Tight run) (commit : Commit M R) : Tight (run.step commit) := by
  cases commit with
  | workload mod =>
    simp only [Running.step, commitWorkload]
    split
    · exact tight
    · constructor
      · intro entry member
        rcases List.mem_append.mp member with known | new
        · exact (tight.points entry known).append _
        · rw [List.mem_singleton] at new
          subst new
          exact ⟨_, by simp [tight.size], rfl⟩
      · simp [tight.size]
      · exact tight.kept.append _
  | record workload record =>
    simp only [Running.step, commitTuningRecord]
    split
    next run' equation =>
      split at equation
      · cases equation
      · cases equation
        exact ⟨tight.points, tight.size, tight.kept⟩
    next equation =>
      split at equation
      next entry chosen =>
        cases equation
        exact ⟨tight.points, tight.size,
          tight.kept.record record chosen (tight.points entry (List.mem_of_find?_eq_some chosen))⟩
      · cases equation

structure Loaded (loaded : List (Workload M × Nat)) (run : Running M R) : Prop where
  front : ∃ added, run.db.workloads2idx = loaded ++ added
  points : ∀ entry ∈ loaded, Points run.files entry
  kept : Kept run.files run.log

variable {loaded : List (Workload M × Nat)}

theorem Loaded.step (held : Loaded loaded run) {commit : Commit M R}
    (known : ∀ {workload record}, commit = .record workload record →
      (findWorkload run.db.equality loaded workload).isSome = true) : Loaded loaded (run.step commit) := by
  obtain ⟨added, front⟩ := held.front
  cases commit with
  | workload mod =>
    simp only [Running.step, commitWorkload]
    split
    · exact held
    · refine ⟨⟨_, by rw [front, List.append_assoc]⟩, ?_, held.kept.append _⟩
      exact fun entry member => (held.points entry member).append _
  | record workload record =>
    obtain ⟨entry, chosen⟩ := Option.isSome_iff_exists.mp (known rfl)
    have first : findWorkload run.db.equality run.db.workloads2idx workload = some entry := by
      rw [findWorkload] at chosen
      rw [findWorkload, front, List.find?_append, chosen, Option.some_or]
    simp only [Running.step, commitTuningRecord, first]
    exact ⟨⟨added, front⟩, held.points, held.kept.record record first
      (held.points entry (List.mem_of_find?_eq_some chosen))⟩

theorem step_equality (run : Running M R) (commit : Commit M R) :
    (run.step commit).db.equality = run.db.equality := by
  cases commit with
  | workload mod =>
    simp only [Running.step, commitWorkload]
    split <;> rfl
  | record workload record =>
    simp only [Running.step, commitTuningRecord]
    cases findWorkload run.db.equality run.db.workloads2idx workload <;> rfl

-- Either no two lines are the same workload under the session's equality, or the session commits records
-- only for workloads that were in the file when it was opened.
def SafeSession (disk : Disk M R) (session : Session M R) : Prop :=
  Unequal session.equality disk.1 ∨
    ∀ workload record, .record workload record ∈ session.commits →
      (findWorkload session.equality (loadWorkloads session.equality disk.1) workload).isSome = true

variable {commits : List (Commit M R)}

theorem commits_tight (tight : Tight run) : Tight (commits.foldl Running.step run) := by
  induction commits generalizing run with
  | nil => exact tight
  | cons commit commits ih => exact ih (tight.step commit)

theorem commits_loaded (held : Loaded loaded run)
    (known : ∀ workload record, .record workload record ∈ commits →
      (findWorkload run.db.equality loaded workload).isSome = true) :
    Loaded loaded (commits.foldl Running.step run) := by
  induction commits generalizing run with
  | nil => exact held
  | cons commit commits ih =>
    have first : Loaded loaded (run.step commit) := by
      apply held.step
      rintro workload record rfl
      exact known workload record List.mem_cons_self
    apply ih first
    intro workload record member
    rw [step_equality]
    exact known workload record (List.mem_cons_of_mem _ member)

def Restored (commit : Committed M R) (record : Workload M × R) : Prop :=
  commit.record = record.2 ∧ commit.equality.equal commit.workload.mod record.1.mod = true

theorem attachRecord_restored (equality : ModuleEquality M) {lines : List (Nat × R)}
    (attaches : List.Forall₂ (Attaches files) log lines) :
    ∃ records, lines.mapM (attachRecord (files.workloads.map (rehash equality))) = .ok records ∧
      List.Forall₂ Restored log records := by
  induction attaches with
  | nil => exact ⟨[], rfl, .nil⟩
  | cons first _ ih =>
    obtain ⟨same, stored, found, equal⟩ := first
    obtain ⟨records, later, rest⟩ := ih
    refine ⟨(rehash equality stored, _) :: records, ?_, .cons ⟨same, ?_⟩ rest⟩
    · simp [attachRecord, found, later]
    · simpa using equal

theorem openDatabase_kept (equality : ModuleEquality M) (kept : Kept files log) :
    ∃ db, openDatabase equality files = .ok db ∧ List.Forall₂ Restored log db.tuningRecords := by
  obtain ⟨records, loaded, restored⟩ := attachRecord_restored equality kept
  exact ⟨⟨equality, loadWorkloads equality files, records⟩, by simp [openDatabase, loaded],
    restored⟩

theorem runSession_kept {disk : Disk M R} {session : Session M R} (kept : Kept disk.1 disk.2)
    (safe : SafeSession disk session) : ∃ next, runSession disk session = .ok next ∧ Kept next.1 next.2 := by
  obtain ⟨db, opened, -⟩ := openDatabase_kept session.equality kept
  have fields : db.equality = session.equality ∧
      db.workloads2idx = loadWorkloads session.equality disk.1 := by
    simp only [openDatabase, bind_ok, pure_ok] at opened
    obtain ⟨_, _, rfl⟩ := opened
    exact ⟨rfl, rfl⟩
  refine ⟨_, by rw [runSession, opened]; rfl, ?_⟩
  have points : ∀ entry ∈ db.workloads2idx, Points disk.1 entry := by
    rw [fields.2]
    exact fun entry member => loadWorkloads_points member
  rcases safe with unequal | known
  · have tight : Tight ⟨db, disk.1, disk.2⟩ :=
      ⟨points, by rw [fields.2]; exact loadWorkloads_length unequal, kept⟩
    exact (commits_tight tight).kept
  · have held : Loaded db.workloads2idx ⟨db, disk.1, disk.2⟩ := ⟨⟨[], by simp⟩, points, kept⟩
    exact (commits_loaded held (by rw [fields.1, fields.2]; exact known)).kept

theorem runSessions_kept : ∀ {sessions : List (Session M R)} {disk : Disk M R},
    Kept disk.1 disk.2 → Along SafeSession runSession sessions disk →
    ∃ last, sessions.foldlM runSession disk = .ok last ∧ Kept last.1 last.2 := by
  intro sessions
  induction sessions with
  | nil => exact fun kept _ => ⟨_, rfl, kept⟩
  | cons session sessions ih =>
    intro disk kept along
    obtain ⟨next, first, kept⟩ := runSession_kept kept along.1
    obtain ⟨last, later, kept⟩ := ih kept (along.2 next first)
    exact ⟨last, by rw [List.foldlM_cons, first, ok_bind, later], kept⟩

theorem reopen_attaches {sessions : List (Session M R)}
    (safe : Along SafeSession runSession sessions blank) :
    ∃ files log, sessions.foldlM runSession blank = .ok (files, log) ∧
      ∀ equality : ModuleEquality M, ∃ db, openDatabase equality files = .ok db ∧
        List.Forall₂ Restored log db.tuningRecords := by
  obtain ⟨last, run, kept⟩ := @runSessions_kept M R sessions blank .nil safe
  exact ⟨last.1, last.2, run, fun equality => openDatabase_kept equality kept⟩

def structural : ModuleEquality (Nat × Nat) where
  equal a b := a == b
  hash a := UInt64.ofNat a.1
  consistent same := by rw [LawfulBEq.eq_of_beq same]

def ignoreNDArray : ModuleEquality (Nat × Nat) where
  equal a b := a.1 == b.1
  hash a := UInt64.ofNat a.1
  consistent same := by rw [LawfulBEq.eq_of_beq same]

def storeTwo : Session (Nat × Nat) Unit :=
  ⟨structural, [.workload (0, 0), .workload (0, 1), .record ⟨(0, 1), 0⟩ ()]⟩

-- The two lines are one workload here, so the new one gets the index of the second line.
def storeThird : Session (Nat × Nat) Unit :=
  ⟨ignoreNDArray, [.workload (1, 0), .record ⟨(1, 0), 1⟩ ()]⟩

theorem reopen_attaches_two :
    ∃ files log, [storeTwo].foldlM runSession blank = .ok (files, log) ∧
      ∀ equality : ModuleEquality (Nat × Nat), ∃ db, openDatabase equality files = .ok db ∧
        List.Forall₂ Restored log db.tuningRecords :=
  reopen_attaches ⟨.inl .nil, fun _ _ => trivial⟩

theorem reopen_misattaches :
    ∃ files log db, [storeTwo, storeThird].foldlM runSession blank = .ok (files, log) ∧
      openDatabase structural files = .ok db ∧ ¬List.Forall₂ Restored log db.tuningRecords := by
  refine ⟨_, _, _, rfl, rfl, ?_⟩
  intro restored
  cases restored with
  | cons _ rest =>
    cases rest with
    | cons second _ => exact absurd second.2 (by decide)

end Tlm.MetaSchedule
