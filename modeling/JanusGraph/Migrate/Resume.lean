import JanusGraph.Migrate.Snapshot

/-!
# A rollback that is interrupted

A rollback writes to the target only, and reads the snapshot only. So whatever an interruption
leaves of its writes, to do it again is to do it.
-/

namespace JanusGraph.Migrate

variable {P C : Type} {disk torn : Disk P C} {snapshot target origin : Path}
  {pages : ℕ → Option P}

/-- What an interruption of a rollback may leave: any of its writes, in whole or in part. -/
inductive Interrupted (snapshot target : Path) (disk : Disk P C) : Disk P C → Prop
  | before : Interrupted snapshot target disk disk
  | mkdir {torn : Disk P C} {made : Path → Bool} (h : Interrupted snapshot target disk torn)
      (hold : ∀ path, torn.made path → made path)
      (hnew : ∀ path, made path → torn.made path ∨ path <+: target) :
      Interrupted snapshot target disk { torn with made }
  /-- `shutil.copy2`, as far as it has come. -/
  | copy {torn : Disk P C} {name : String} (h : Interrupted snapshot target disk torn)
      (hname : name = "episodes.db" ∨ name = "queue.db") (part : ℕ → Option P) :
      Interrupted snapshot target disk
        (torn.write target name part ((torn.folder target).log name))
  | unlink {torn : Disk P C} (h : Interrupted snapshot target disk torn) :
      Interrupted snapshot target disk
        (torn.modify target fun folder =>
          { folder with log := Function.update folder.log "episodes.db" [] })
  /-- `shutil.rmtree` and `shutil.copytree`, as far as they have come. -/
  | checkpoints {torn : Disk P C} {origin : Path} {content : C}
      (h : Interrupted snapshot target disk torn)
      (htree : disk.checkpointsOf snapshot = some (origin, .tree content))
      (hplain : (disk.folder target).checkpoints ≠ some .file) (part : Option C) :
      Interrupted snapshot target disk
        (torn.modify target fun folder => { folder with checkpoints := part.map .tree })

/-- What all that has in common. -/
structure InMidst (snapshot target : Path) (disk torn : Disk P C) : Prop where
  old : ∀ path, disk.made path → torn.made path
  new : ∀ path, torn.made path → disk.made path ∨ path <+: target
  folders : ∀ path ≠ target, torn.folder path = disk.folder path
  pages : ∀ name, name ≠ "episodes.db" → name ≠ "queue.db" →
    (torn.folder target).pages name = (disk.folder target).pages name
  log : ∀ name, name ≠ "episodes.db" →
    (torn.folder target).log name = (disk.folder target).log name
  metadata : (torn.folder target).metadata = (disk.folder target).metadata
  checkpoints : (torn.folder target).checkpoints = (disk.folder target).checkpoints ∨
    (∃ origin content, disk.checkpointsOf snapshot = some (origin, .tree content)) ∧
      (disk.folder target).checkpoints ≠ some .file ∧
      (torn.folder target).checkpoints ≠ some .file

theorem Interrupted.inMidst (h : Interrupted snapshot target disk torn) :
    InMidst snapshot target disk torn := by
  induction h with
  | before =>
    exact ⟨fun _ => id, fun _ => .inl, fun _ _ => rfl, fun _ _ _ => rfl, fun _ _ => rfl, rfl,
      .inl rfl⟩
  | mkdir h hold hnew ih =>
    exact { ih with
      old := fun path hpath => hold path (ih.old path hpath)
      new := fun path hpath => (hnew path hpath).elim (ih.new path) .inr }
  | copy h hname part ih =>
    refine ⟨ih.old, ih.new, fun path hpath => ?_, fun name hepisodes hqueue => ?_,
      fun name hepisodes => ?_, ?_, ?_⟩
    · simpa [Disk.write, hpath] using ih.folders path hpath
    · rcases hname with rfl | rfl
      · simpa [Disk.write, hepisodes] using ih.pages name hepisodes hqueue
      · simpa [Disk.write, hqueue] using ih.pages name hepisodes hqueue
    · simpa [Disk.write] using ih.log name hepisodes
    · simpa using ih.metadata
    · simpa using ih.checkpoints
  | unlink h ih =>
    refine ⟨ih.old, ih.new, fun path hpath => ?_, fun name hepisodes hqueue => ?_,
      fun name hepisodes => ?_, ?_, ?_⟩
    · simpa [hpath] using ih.folders path hpath
    · simpa using ih.pages name hepisodes hqueue
    · simpa [hepisodes] using ih.log name hepisodes
    · simpa using ih.metadata
    · simpa using ih.checkpoints
  | checkpoints h htree hplain part ih =>
    refine ⟨ih.old, ih.new, fun path hpath => ?_, fun name hepisodes hqueue => ?_,
      fun name hepisodes => ?_, ?_, .inr ⟨⟨_, _, htree⟩, hplain, ?_⟩⟩
    · simpa [hpath] using ih.folders path hpath
    · simpa using ih.pages name hepisodes hqueue
    · simpa using ih.log name hepisodes
    · simpa using ih.metadata
    · cases part <;> simp

/-! ## Where a rollback reads -/

theorem snapshotOf_origin (h : disk.snapshotOf snapshot = some (origin, pages)) :
    origin = snapshot ∨ origin = latest snapshot := by
  rw [Disk.snapshotOf] at h
  split at h
  · exact .inl (Prod.mk.inj (Option.some.inj h)).1.symm
  · obtain ⟨_, -, hpages⟩ := Option.map_eq_some_iff.mp h
    exact .inr (Prod.mk.inj hpages).1.symm

theorem checkpointsOf_origin {checkpoints : Checkpoints C}
    (h : disk.checkpointsOf snapshot = some (origin, checkpoints)) :
    origin = snapshot ∨ origin = latest snapshot := by
  rw [Disk.checkpointsOf] at h
  split at h
  · exact .inl (Prod.mk.inj (Option.some.inj h)).1.symm
  · obtain ⟨_, -, hcheckpoints⟩ := Option.map_eq_some_iff.mp h
    exact .inr (Prod.mk.inj hcheckpoints).1.symm

theorem checkpointsOf_modify {change : Folder P C → Folder P C} (hsnapshot : snapshot ≠ target)
    (hlatest : latest snapshot ≠ target) :
    (disk.modify target change).checkpointsOf snapshot = disk.checkpointsOf snapshot := by
  rw [Disk.checkpointsOf, Disk.checkpointsOf, Disk.folder_modify_of_ne hsnapshot,
    Disk.folder_modify_of_ne hlatest]

/-! ## What it makes of them -/

theorem setCheckpoints_self {checkpoints : Option (Checkpoints C)}
    (h : (disk.folder target).checkpoints = checkpoints) :
    (disk.modify target fun folder => { folder with checkpoints := checkpoints }) = disk := by
  subst h
  exact Disk.ext rfl (Function.update_eq_self ..)

namespace InMidst

variable (h : InMidst snapshot target disk torn)
include h

/-- The folders to the target are there in the end, however many of them are there already. -/
theorem made_mkdir : (torn.mkdir target).made = (disk.mkdir target).made := by
  funext path
  simp only [Disk.mkdir]
  by_cases hancestor : path.isPrefixOf target
  · simp [hancestor]
  · have hiff : torn.made path = disk.made path := by
      refine Bool.eq_iff_iff.mpr ⟨fun htorn => (h.new path htorn).resolve_right ?_, h.old path⟩
      rwa [← List.isPrefixOf_iff_prefix]
    simp [hiff]

/-- So are the databases. -/
theorem restore_eq (pages : ℕ → Option P) :
    (torn.mkdir target).restore target pages =
      ((disk.mkdir target).restore target pages).modify target fun folder =>
        { folder with checkpoints := (torn.folder target).checkpoints } := by
  refine Disk.ext h.made_mkdir (funext fun path => ?_)
  by_cases hpath : path = target
  · subst hpath
    refine Folder.ext (funext fun name => ?_) (funext fun name => ?_) ?_ ?_
    · by_cases hqueue : name = "queue.db"
      · simp [Disk.restore, Disk.write, hqueue]
      · by_cases hepisodes : name = "episodes.db"
        · simp [Disk.restore, Disk.write, hepisodes]
        · simpa [Disk.restore, Disk.write, hepisodes, hqueue] using h.pages name hepisodes hqueue
    · by_cases hqueue : name = "queue.db"
      · simpa [Disk.restore, Disk.write, hqueue] using h.log "queue.db" (by decide)
      · by_cases hepisodes : name = "episodes.db"
        · simp [Disk.restore, Disk.write, hepisodes]
        · simpa [Disk.restore, Disk.write, hepisodes, hqueue] using h.log name hepisodes
    · simp
    · simpa [Disk.restore] using h.metadata
  · simpa [Disk.restore, Disk.write, hpath] using h.folders path hpath

/-- The snapshot is what it was. -/
theorem snapshotOf_eq (hsnapshot : snapshot ≠ target) (hlatest : latest snapshot ≠ target) :
    torn.snapshotOf snapshot = disk.snapshotOf snapshot := by
  rw [Disk.snapshotOf, Disk.snapshotOf, h.folders _ hsnapshot, h.folders _ hlatest]

/-- Of the checkpoints it does not matter what was left, where they are replaced. -/
theorem restoreCheckpoints_eq (hsnapshot : snapshot ≠ target) (hlatest : latest snapshot ≠ target)
    (pages : ℕ → Option P) :
    ((torn.mkdir target).restore target pages).restoreCheckpoints snapshot target =
      ((disk.mkdir target).restore target pages).restoreCheckpoints snapshot target := by
  rw [h.restore_eq]
  rcases h.checkpoints with hsame | ⟨⟨origin, content, htree⟩, hplain, htorn⟩
  · rw [hsame]
    congr 1
    exact setCheckpoints_self (by simp)
  · have hne : origin ≠ target := by
      rcases checkpointsOf_origin htree with rfl | rfl
      exacts [hsnapshot, hlatest]
    rw [restoreCheckpoints_tree (by
        rwa [checkpointsOf_modify hsnapshot hlatest, checkpointsOf_restore,
          checkpointsOf_mkdir]) hne (by simpa),
      restoreCheckpoints_tree (by simpa using htree) hne (by simpa using hplain)]
    simp [Disk.putCheckpoints, Disk.modify]

end InMidst

/-! ## To the end -/

theorem interrupted_restore (pages : ℕ → Option P) :
    Interrupted snapshot target disk ((disk.mkdir target).restore target pages) := by
  have hmkdir : Interrupted snapshot target disk (disk.mkdir target) := by
    refine .mkdir .before (fun path hpath => by simp [hpath]) fun path hpath => ?_
    rw [← List.isPrefixOf_iff_prefix]
    simpa [or_comm] using hpath
  have hcopied := ((hmkdir.copy (.inl rfl) pages).unlink).copy (.inr rfl) pages
  convert hcopied using 1
  simp [Disk.restore, Disk.write, Disk.modify]

/-- A rollback is no more than its writes. -/
theorem interrupted_rollback (hmade : disk.made snapshot = true)
    (hfound : disk.snapshotOf snapshot = some (origin, pages)) (hne : origin ≠ target) :
    Interrupted snapshot target disk (rollbackDatabase snapshot target disk).1 := by
  have hrestored : Interrupted snapshot target disk ((disk.mkdir target).restore target pages) :=
    interrupted_restore pages
  rw [rollbackDatabase_eq hmade hfound hne]
  unfold Disk.restoreCheckpoints
  split
  · next origin content htree =>
    rw [checkpointsOf_restore, checkpointsOf_mkdir] at htree
    split
    · exact hrestored
    · next hthere =>
      have hplain : (disk.folder target).checkpoints ≠ some .file := by simpa using hthere
      split
      · exact hrestored.checkpoints htree hplain none
      · exact hrestored.checkpoints htree hplain (some content)
  · exact hrestored

/-- To do a rollback again, wherever it was interrupted and also if it was not, ends where it would
have ended. -/
theorem rollback_resumed (hmade : disk.made snapshot = true)
    (hfound : disk.snapshotOf snapshot = some (origin, pages))
    (hsnapshot : snapshot ≠ target) (hlatest : latest snapshot ≠ target) :
    Interrupted snapshot target disk (rollbackDatabase snapshot target disk).1 ∧
      ∀ torn, Interrupted snapshot target disk torn →
        rollbackDatabase snapshot target torn = rollbackDatabase snapshot target disk := by
  have hne : origin ≠ target := by
    rcases snapshotOf_origin hfound with rfl | rfl
    exacts [hsnapshot, hlatest]
  refine ⟨interrupted_rollback hmade hfound hne, fun torn htorn => ?_⟩
  have hmidst := htorn.inMidst
  rw [rollbackDatabase_eq hmade hfound hne,
    rollbackDatabase_eq (hmidst.old _ hmade)
      ((hmidst.snapshotOf_eq hsnapshot hlatest).trans hfound) hne,
    hmidst.restoreCheckpoints_eq hsnapshot hlatest]

/-- A snapshot of the live queue, taken. -/
def savedDisk : Disk ℕ ℕ :=
  (snapshotDatabase besideDaemon (["data"], "episodes.db") ["snapshots"] true liveDisk).1

theorem rollback_resumed_saved :
    rollbackDatabase ["snapshots"] ["data"]
        (savedDisk.write ["data"] "episodes.db" (fun _ => none)
          ((savedDisk.folder ["data"]).log "episodes.db")) =
      rollbackDatabase ["snapshots"] ["data"] savedDisk :=
  (rollback_resumed rfl rfl (by decide) (by decide)).2 _ (.copy .before (.inl rfl) _)

end JanusGraph.Migrate
