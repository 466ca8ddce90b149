import JanusGraph.Lib.Wal

/-!
# Snapshots

`snapshot_database` and `rollback_database` of `migrate.py`, on a disk of folders. A snapshot goes
through the backup API of SQLite, and so through the log of the source; a rollback copies files.
While either runs nobody else has the databases of the folder it writes to open. The folders lie
side by side: none is inside the `checkpoints` of another one, where `shutil.rmtree` would remove
it with them.
-/

namespace JanusGraph.Migrate

open Wal

variable {P C : Type}

/-- The parts of an absolute path. -/
abbrev Path : Type := List String

/-- What may have the name `checkpoints`. -/
inductive Checkpoints (C : Type) : Type
  | file
  | tree (content : C)
  deriving DecidableEq

/-- `counts` -/
structure Counts : Type where
  total : ℕ := 0
  queued : ℕ := 0
  done : ℕ := 0
  failed : ℕ := 0
  dlq : ℕ := 0
  deriving DecidableEq

/-- `metadata.json` -/
structure Metadata : Type where
  sourceDb : Path × String
  targetDb : Path × String
  sha256 : String
  counts : Counts
  deriving DecidableEq

/-- The files of a folder. -/
@[ext] structure Folder (P C : Type) : Type where
  /-- The database files by name, in pages. -/
  pages : String → Option (ℕ → Option P)
  /-- What a database has in the `-wal` beside it, as far as it is committed; a `-wal` that is not
  there is an empty one. -/
  log : String → List (ℕ × P)
  checkpoints : Option (Checkpoints C)
  metadata : Option Metadata

/-- What a connection to a database reads. -/
def Folder.read (folder : Folder P C) (name : String) : Option (ℕ → Option P) :=
  (folder.pages name).map (overlay (folder.log name))

@[ext] structure Disk (P C : Type) : Type where
  made : Path → Bool
  folder : Path → Folder P C

namespace Disk

variable (disk : Disk P C) (path : Path)

/-- `path.mkdir(parents=True, exist_ok=True)` -/
def mkdir : Disk P C := { disk with made := fun p => p.isPrefixOf path || disk.made p }

def modify (change : Folder P C → Folder P C) : Disk P C :=
  { disk with folder := Function.update disk.folder path (change (disk.folder path)) }

/-- A database file anew, and the `-wal` beside it. -/
def write (name : String) (pages : ℕ → Option P) (log : List (ℕ × P)) : Disk P C :=
  disk.modify path fun folder =>
    { folder with
      pages := Function.update folder.pages name (some pages)
      log := Function.update folder.log name log }

/-- `shutil.rmtree` of what is there, and `shutil.copytree` of a tree of another folder. -/
def putCheckpoints (content : C) : Disk P C :=
  disk.modify path fun folder => { folder with checkpoints := some (.tree content) }

end Disk

/-! ## A snapshot -/

/-- What the queries of a snapshot find in a database. -/
inductive Episodes : Type
  /-- No table of episodes. -/
  | missing
  /-- One without a `status`. -/
  | unlabelled (total : ℕ)
  | labelled (statuses : List String)

/-- The counts, those that were made before a query failed. -/
def Episodes.counts : Episodes → Counts
  | missing => {}
  | unlabelled total => { total }
  | labelled statuses =>
    { total := statuses.length
      queued := statuses.count "queued"
      done := statuses.count "done"
      failed := statuses.count "failed"
      dlq := statuses.countP (["failed", "aborted", "dead_letter"].contains ·) }

/-- What a snapshot meets. -/
structure Surroundings (P : Type) : Type where
  /-- `hashlib.sha256` of a file. -/
  sha256 : (ℕ → Option P) → String
  episodes : (ℕ → Option P) → Episodes
  /-- Nobody else has the source open, so that closing it brings the log into the file. -/
  alone : Bool

inductive Failure : Type
  | noSource
  | noSnapshot
  | noDatabase
  /-- `shutil.copy2` of a file to itself. -/
  | sameFile
  /-- `shutil.rmtree` of a file. -/
  | notATree
  /-- `shutil.copytree` of what `shutil.rmtree` has removed. -/
  | treeGone
  deriving DecidableEq

/-- The backup, to a database other than the source. -/
def Disk.backup (disk : Disk P C) (env : Surroundings P) (source : Path × String) (target : Path)
    (content : ℕ → Option P) : Disk P C :=
  let disk := disk.write target "episodes.db" content []
  if env.alone then disk.write source.1 source.2 content [] else disk

/-- What a snapshot does with the checkpoints. -/
def Disk.saveCheckpoints (disk : Disk P C) (source : Path × String) (target : Path)
    (includeCheckpoints : Bool) : Disk P C × Option Failure :=
  match includeCheckpoints, (disk.folder source.1).checkpoints with
  | true, some (.tree content) =>
    match (disk.folder target).checkpoints with
    | some .file => (disk, some .notATree)
    | _ =>
      if source.1 = target then
        (disk.modify target fun folder => { folder with checkpoints := none }, some .treeGone)
      else (disk.putCheckpoints target content, none)
  | _, _ => (disk, none)

/-- `snapshot_database` -/
def snapshotDatabase (env : Surroundings P) (source : Path × String) (target : Path)
    (includeCheckpoints : Bool) (disk : Disk P C) : Disk P C × Except Failure Metadata :=
  match (disk.folder source.1).read source.2 with
  | none => (disk, .error .noSource)
  | some content =>
    let disk := (disk.mkdir target).backup env source target content
    -- the digest is that of the copied file, the counts are what a connection to it reads
    let copy := disk.folder target
    let metadata : Metadata :=
      { sourceDb := source
        targetDb := (target, "episodes.db")
        sha256 := env.sha256 ((copy.pages "episodes.db").getD fun _ => none)
        counts := (env.episodes ((copy.read "episodes.db").getD fun _ => none)).counts }
    match disk.saveCheckpoints source target includeCheckpoints with
    | (disk, some failure) => (disk, .error failure)
    | (disk, none) =>
      (disk.modify target fun folder => { folder with metadata := some metadata }, .ok metadata)

/-! ## A rollback -/

def latest (path : Path) : Path := path ++ ["latest"]

/-- Where a rollback takes the database from. -/
def Disk.snapshotOf (disk : Disk P C) (path : Path) : Option (Path × (ℕ → Option P)) :=
  match (disk.folder path).pages "episodes.db" with
  | some pages => some (path, pages)
  | none => ((disk.folder (latest path)).pages "episodes.db").map fun pages => (latest path, pages)

/-- Where it takes the checkpoints from. -/
def Disk.checkpointsOf (disk : Disk P C) (path : Path) : Option (Path × Checkpoints C) :=
  match (disk.folder path).checkpoints with
  | some checkpoints => some (path, checkpoints)
  | none =>
    (disk.folder (latest path)).checkpoints.map fun checkpoints => (latest path, checkpoints)

/-- The two databases of a rollback. -/
def Disk.restore (disk : Disk P C) (target : Path) (pages : ℕ → Option P) : Disk P C :=
  let disk := disk.write target "episodes.db" pages []
  -- the `-wal` of the copy stays
  disk.write target "queue.db" pages ((disk.folder target).log "queue.db")

/-- What a rollback does to the checkpoints. -/
def Disk.restoreCheckpoints (disk : Disk P C) (snapshot target : Path) :
    Disk P C × Except Failure (Path × String) :=
  match disk.checkpointsOf snapshot with
  | some (origin, .tree content) =>
    match (disk.folder target).checkpoints with
    | some .file => (disk, .error .notATree)
    | _ =>
      if origin = target then
        (disk.modify target fun folder => { folder with checkpoints := none }, .error .treeGone)
      else (disk.putCheckpoints target content, .ok (target, "episodes.db"))
  | _ => (disk, .ok (target, "episodes.db"))

/-- `rollback_database` -/
def rollbackDatabase (snapshot target : Path) (disk : Disk P C) :
    Disk P C × Except Failure (Path × String) :=
  if !disk.made snapshot then (disk, .error .noSnapshot)
  else
    match disk.snapshotOf snapshot with
    | none => (disk, .error .noDatabase)
    | some (origin, pages) =>
      if origin = target then (disk.mkdir target, .error .sameFile)
      else ((disk.mkdir target).restore target pages).restoreCheckpoints snapshot target

/-! ## The folders -/

variable {disk : Disk P C} {path other : Path} {name : String} {pages : ℕ → Option P}
  {log : List (ℕ × P)} {content : C} {change : Folder P C → Folder P C}

namespace Disk

@[simp] theorem folder_mkdir : (disk.mkdir path).folder = disk.folder := rfl

@[simp] theorem made_modify : (disk.modify path change).made = disk.made := rfl

@[simp] theorem folder_modify : (disk.modify path change).folder path = change (disk.folder path) :=
  Function.update_self ..

@[simp] theorem folder_modify_of_ne (h : other ≠ path) :
    (disk.modify path change).folder other = disk.folder other :=
  Function.update_of_ne h ..

@[simp] theorem checkpoints_write :
    ((disk.write path name pages log).folder other).checkpoints =
      (disk.folder other).checkpoints := by
  by_cases h : other = path
  · subst h
    simp [write]
  · simp [write, h]

@[simp] theorem metadata_write :
    ((disk.write path name pages log).folder other).metadata = (disk.folder other).metadata := by
  by_cases h : other = path
  · subst h
    simp [write]
  · simp [write, h]

@[simp] theorem made_mkdir_self : (disk.mkdir path).made path = true := by
  simp [mkdir]

end Disk

/-- The folders after a rollback of `pages`, but for the checkpoints. -/
structure Restored (pages : ℕ → Option P) (target : Path) (before after : Disk P C) : Prop where
  episodes : (after.folder target).pages "episodes.db" = some pages
  episodesLog : (after.folder target).log "episodes.db" = []
  queue : (after.folder target).pages "queue.db" = some pages
  queueLog : (after.folder target).log "queue.db" = (before.folder target).log "queue.db"
  files : ∀ name, name ≠ "episodes.db" → name ≠ "queue.db" →
    (after.folder target).pages name = (before.folder target).pages name ∧
      (after.folder target).log name = (before.folder target).log name
  metadata : (after.folder target).metadata = (before.folder target).metadata
  folders : ∀ path ≠ target, after.folder path = before.folder path
  made : after.made = (before.mkdir target).made

variable {env : Surroundings P} {source : Path × String} {snapshot target data : Path}
  {includeCheckpoints : Bool} {metadata : Metadata} {origin : Path} {taken later after : Disk P C}

/-- What is done to the checkpoints afterwards leaves the databases. -/
theorem Restored.setCheckpoints (h : Restored pages target disk after)
    (checkpoints : Option (Checkpoints C)) :
    Restored pages target disk
      (after.modify target fun folder => { folder with checkpoints := checkpoints }) where
  episodes := by simpa using h.episodes
  episodesLog := by simpa using h.episodesLog
  queue := by simpa using h.queue
  queueLog := by simpa using h.queueLog
  files name hepisodes hqueue := by simpa using h.files name hepisodes hqueue
  metadata := by simpa using h.metadata
  folders path hpath := by simpa [hpath] using h.folders path hpath
  made := h.made

theorem restored_restore (disk : Disk P C) (target : Path) (pages : ℕ → Option P) :
    Restored pages target disk ((disk.mkdir target).restore target pages) where
  episodes := by simp [Disk.restore, Disk.write]
  episodesLog := by simp [Disk.restore, Disk.write]
  queue := by simp [Disk.restore, Disk.write]
  queueLog := by simp [Disk.restore, Disk.write]
  files name hepisodes hqueue := by simp [Disk.restore, Disk.write, hepisodes, hqueue]
  metadata := by simp [Disk.restore]
  folders path hpath := by simp [Disk.restore, Disk.write, hpath]
  made := rfl

@[simp] theorem checkpoints_restore :
    ((disk.restore path pages).folder other).checkpoints = (disk.folder other).checkpoints := by
  simp [Disk.restore]

@[simp] theorem checkpointsOf_restore :
    (disk.restore path pages).checkpointsOf snapshot = disk.checkpointsOf snapshot := by
  simp [Disk.checkpointsOf]

@[simp] theorem checkpointsOf_mkdir :
    (disk.mkdir path).checkpointsOf snapshot = disk.checkpointsOf snapshot := rfl

/-! ## A rollback, from where it has a database on -/

theorem rollbackDatabase_eq (hmade : disk.made snapshot = true)
    (hfound : disk.snapshotOf snapshot = some (origin, pages)) (hne : origin ≠ target) :
    rollbackDatabase snapshot target disk =
      ((disk.mkdir target).restore target pages).restoreCheckpoints snapshot target := by
  simp [rollbackDatabase, hmade, hfound, hne]

/-- The checkpoints come last, so that what goes wrong there is no matter of the databases. -/
theorem Restored.restoreCheckpoints (h : Restored pages target disk after) :
    Restored pages target disk (after.restoreCheckpoints snapshot target).1 := by
  rw [Disk.restoreCheckpoints]
  split
  · split
    · exact h
    · split
      · exact h.setCheckpoints none
      · exact h.setCheckpoints (some (.tree _))
  · exact h

theorem restored_rollback (hmade : disk.made snapshot = true)
    (hfound : disk.snapshotOf snapshot = some (origin, pages)) (hne : origin ≠ target) :
    Restored pages target disk (rollbackDatabase snapshot target disk).1 := by
  rw [rollbackDatabase_eq hmade hfound hne]
  exact (restored_restore disk target pages).restoreCheckpoints

/-- A tree of another folder replaces what is there, unless that is a file. -/
theorem restoreCheckpoints_tree
    (htree : disk.checkpointsOf snapshot = some (other, .tree content)) (hother : other ≠ target)
    (hplain : (disk.folder target).checkpoints ≠ some .file) :
    disk.restoreCheckpoints snapshot target =
      (disk.putCheckpoints target content, .ok (target, "episodes.db")) := by
  simp only [Disk.restoreCheckpoints, htree]
  rcases hthere : (disk.folder target).checkpoints with _ | _ | before
  · simp [hother]
  · exact absurd hthere hplain
  · simp [hother]

theorem rollback_tree (hmade : disk.made snapshot = true)
    (hfound : disk.snapshotOf snapshot = some (origin, pages)) (hne : origin ≠ target)
    (htree : disk.checkpointsOf snapshot = some (other, .tree content)) (hother : other ≠ target)
    (hplain : (disk.folder target).checkpoints ≠ some .file) :
    (rollbackDatabase snapshot target disk).2 = .ok (target, "episodes.db") ∧
      ((rollbackDatabase snapshot target disk).1.folder target).checkpoints =
        some (.tree content) := by
  rw [rollbackDatabase_eq hmade hfound hne,
    restoreCheckpoints_tree (by simpa using htree) hother (by simpa using hplain)]
  exact ⟨rfl, by simp [Disk.putCheckpoints]⟩

/-! ## A snapshot -/

/-- The tree of checkpoints that a snapshot leaves in its folder: that of the source, if it is
asked for and there, and else what an earlier snapshot has left. -/
def Disk.savedTree (disk : Disk P C) (source : Path × String) (target : Path)
    (includeCheckpoints : Bool) : Option C :=
  match includeCheckpoints, (disk.folder source.1).checkpoints,
    (disk.folder target).checkpoints with
  | true, some (.tree content), _ => some content
  | _, _, some (.tree content) => some content
  | _, _, _ => none

/-- What a snapshot that goes through leaves of the checkpoints, and of all else. -/
theorem saveCheckpoints_spec {saved : Disk P C}
    (h : disk.saveCheckpoints source target includeCheckpoints = (saved, none)) :
    (∀ content, disk.savedTree source target includeCheckpoints = some content →
        (saved.folder target).checkpoints = some (.tree content)) ∧
      (saved.folder target).pages = (disk.folder target).pages ∧
      (saved.folder target).log = (disk.folder target).log ∧ saved.made = disk.made := by
  unfold Disk.saveCheckpoints at h
  split at h
  · next htree =>
    split at h
    · cases h
    · split at h
      · cases h
      · cases h
        simp [Disk.savedTree, htree, Disk.putCheckpoints]
  · next hnone =>
    cases h
    refine ⟨fun content hsaved => ?_, rfl, rfl, rfl⟩
    unfold Disk.savedTree at hsaved
    split at hsaved
    · next htree => exact absurd htree (hnone _ rfl)
    · next hthere _ => rw [hthere, Option.some.inj hsaved]
    · cases hsaved

/-- The backup holds what a connection to the source reads. -/
theorem backup_spec {content : ℕ → Option P} (hne : source ≠ (target, "episodes.db")) :
    ((disk.backup env source target content).folder target).pages "episodes.db" = some content ∧
      ((disk.backup env source target content).folder target).log "episodes.db" = [] := by
  rw [Disk.backup]
  by_cases htarget : target = source.1
  · have hname : "episodes.db" ≠ source.2 := fun hname => hne (Prod.ext htarget.symm hname.symm)
    split <;> simp [Disk.write, htarget, hname]
  · split <;> simp [Disk.write, htarget]

@[simp] theorem savedTree_backup {content : ℕ → Option P} :
    ((disk.mkdir path).backup env source target content).savedTree source target
      includeCheckpoints = disk.savedTree source target includeCheckpoints := by
  have hfolder (other : Path) :
      (((disk.mkdir path).backup env source target content).folder other).checkpoints =
        (disk.folder other).checkpoints := by
    rw [Disk.backup]
    split <;> simp
  simp only [Disk.savedTree, hfolder]

@[simp] theorem made_backup {content : ℕ → Option P} :
    (disk.backup env source target content).made = disk.made := by
  rw [Disk.backup]
  split <;> rfl

theorem snapshot_taken (hne : source ≠ (target, "episodes.db"))
    (h : snapshotDatabase env source target includeCheckpoints disk = (taken, .ok metadata)) :
    ∃ pages, (disk.folder source.1).read source.2 = some pages ∧
      metadata.sha256 = env.sha256 pages ∧ metadata.counts = (env.episodes pages).counts ∧
      taken.made target = true ∧ (taken.folder target).pages "episodes.db" = some pages ∧
      (taken.folder target).log "episodes.db" = [] ∧
      ∀ content, disk.savedTree source target includeCheckpoints = some content →
        (taken.folder target).checkpoints = some (.tree content) := by
  rw [snapshotDatabase] at h
  split at h
  · cases h
  next pages hread =>
  dsimp only at h
  split at h
  · cases h
  next saved hsave =>
  cases h
  obtain ⟨htree, hpages, hlog, hmade⟩ := saveCheckpoints_spec hsave
  obtain ⟨hbackup, hempty⟩ := backup_spec hne
  have hcopy : ((((disk.mkdir target).backup env source target pages).folder target).read
      "episodes.db") = some pages := by
    rw [Folder.read, hbackup, hempty]
    rfl
  refine ⟨pages, hread, by simp [hbackup], by simp [hcopy], by simp [hmade], ?_, ?_,
    fun content hsaved => ?_⟩
  · simpa [hpages] using hbackup
  · simpa [hlog] using hempty
  · simpa using htree content (by rwa [savedTree_backup])

/-! ## There and back -/

theorem snapshotOf_of_folder (h : (disk.folder snapshot).pages "episodes.db" = some pages) :
    disk.snapshotOf snapshot = some (snapshot, pages) := by
  rw [Disk.snapshotOf, h]

theorem checkpointsOf_of_folder
    (h : (disk.folder snapshot).checkpoints = some (.tree content)) :
    disk.checkpointsOf snapshot = some (snapshot, .tree content) := by
  rw [Disk.checkpointsOf, h]

/-- Whatever has happened elsewhere since a snapshot, a rollback to it brings back what a connection
to the source read then. The copy that is called `queue.db` shows it exactly if the log that lies
beside that has nothing else to say. -/
theorem rolled_back (hne : source ≠ (target, "episodes.db"))
    (hsnapshot : snapshotDatabase env source target includeCheckpoints disk =
      (taken, .ok metadata))
    (hmade : later.made target = true) (hkept : later.folder target = taken.folder target)
    (hdata : data ≠ target) :
    ∃ pages, (disk.folder source.1).read source.2 = some pages ∧
      metadata.sha256 = env.sha256 pages ∧ metadata.counts = (env.episodes pages).counts ∧
      Restored pages data later (rollbackDatabase target data later).1 ∧
      ((rollbackDatabase target data later).1.folder data).read "episodes.db" = some pages ∧
      (((rollbackDatabase target data later).1.folder data).read "queue.db" = some pages ↔
        ∀ n page, Wal.latest ((later.folder data).log "queue.db") n = some page →
          pages n = some page) ∧
      ∀ content, disk.savedTree source target includeCheckpoints = some content →
        (later.folder data).checkpoints ≠ some .file →
        (rollbackDatabase target data later).2 = .ok (data, "episodes.db") ∧
          ((rollbackDatabase target data later).1.folder data).checkpoints =
            some (.tree content) := by
  obtain ⟨pages, hread, hsha256, hcounts, -, hpages, -, htree⟩ := snapshot_taken hne hsnapshot
  rw [← hkept] at hpages htree
  have hfound := snapshotOf_of_folder hpages
  have hrestored := restored_rollback hmade hfound hdata.symm
  refine ⟨pages, hread, hsha256, hcounts, hrestored, ?_, ?_, fun content hsaved hplain => ?_⟩
  · rw [Folder.read, hrestored.episodes, hrestored.episodesLog]
    rfl
  · rw [Folder.read, hrestored.queue, hrestored.queueLog, Option.map_some, Option.some_inj]
    exact overlay_eq_self_iff
  · exact rollback_tree hmade hfound hdata.symm (checkpointsOf_of_folder (htree content hsaved))
      hdata.symm hplain

/-- A queue whose last page is in its log, beside a copy that has a log of its own. -/
def liveDisk : Disk ℕ ℕ where
  made path := path.isPrefixOf ["data"]
  folder path :=
    if path = ["data"] then
      { pages := fun name =>
          if name = "episodes.db" ∨ name = "queue.db" then
            some fun n => if n = 0 then some 1 else none
          else none
        log := fun name =>
          if name = "episodes.db" then [(1, 2)] else if name = "queue.db" then [(1, 3)] else []
        checkpoints := some (.tree 4)
        metadata := none }
    else ⟨fun _ => none, fun _ => [], none, none⟩

/-- The surroundings of a snapshot while the daemon runs. -/
def besideDaemon : Surroundings ℕ :=
  ⟨fun _ => "digest", fun _ => .labelled ["queued", "failed"], false⟩

theorem rolled_back_live :
    ∃ pages : ℕ → Option ℕ, pages 1 = some 2 ∧
      ((rollbackDatabase ["snapshots"] ["data"]
        (snapshotDatabase besideDaemon (["data"], "episodes.db") ["snapshots"] true
          liveDisk).1).1.folder ["data"]).read "episodes.db" = some pages := by
  obtain ⟨pages, hread, -, -, -, hepisodes, -, -⟩ :=
    rolled_back (by decide : ((["data"], "episodes.db") : Path × String) ≠ (["snapshots"], _))
      (rfl : snapshotDatabase besideDaemon _ _ true liveDisk = (_, .ok _)) rfl rfl
      (by decide : ["data"] ≠ ["snapshots"])
  exact ⟨pages, by rw [← Option.some.inj hread]; rfl, hepisodes⟩

end JanusGraph.Migrate
