import JanusGraph.Dream.Switches
import JanusGraph.Graph.Agree
import JanusGraph.Graph.FoldCorrect
import JanusGraph.Graph.Returns

/-!
# The audit trail of a dream

`dream_runs` has a row for a run from its first statement on, and that row is closed with
what the report says. For none of the phases raises: each stands under a `try` of its own.
-/

namespace JanusGraph

/-! ## What the phases return -/

theorem returns_loadGraphSnapshot (py : Builtins) (gid : String) :
    Prog.Returns (loadGraphSnapshot py gid) :=
  (Prog.returns_attempt _).bind fun _ => (Prog.returns_attempt _).bind fun _ =>
    (Prog.returns_attempt _).bind fun _ => (Prog.returns_attempt _).bind fun _ =>
      Prog.returns_ret _

theorem returns_loadDedupSnapshot (py : Builtins) (gid : String) :
    Prog.Returns (loadDedupSnapshot py gid) :=
  (Prog.returns_attempt _).bind fun _ => (Prog.returns_attempt _).bind fun _ =>
    (Prog.returns_attempt _).bind fun _ => (Prog.returns_attempt _).bind fun _ =>
      Prog.returns_ret _

/-- Phase 2 reports what its queries raise. -/
theorem returns_runPhase2Dedup {Score : Type} [LinearOrder Score] (cfg : DedupSettings Score)
    (gid : String) (force : Bool) : Prog.Returns (runPhase2Dedup cfg gid force) := by
  refine (returns_loadDedupSnapshot _ _).bind fun read => ?_
  dsimp only
  split
  · trivial
  · refine (returns_applyPlan _ _ _ (by decide)).via.bind fun counters => ?_
    exact (returns_applyEpisodicPlan _ (by decide : (200 : ℕ) ≠ 0)).via.bind fun _ =>
      Prog.returns_ret _

theorem returns_deleteOrphans (uuids : List String) : Prog.Returns (deleteOrphans uuids) := by
  refine (Prog.Returns.forEach (fun uuid => ?_) uuids).bind fun _ => Prog.returns_ret _
  exact (Prog.returns_attempt _).bind fun outcome => by cases outcome <;> trivial

/-- So does Phase 3. -/
theorem returns_runPhase3Prune (py : Builtins) (gid : String) (force : Bool) :
    Prog.Returns (runPhase3Prune py gid force) := by
  refine (returns_loadGraphSnapshot _ _).bind fun read => ?_
  dsimp only
  split
  · trivial
  split
  · trivial
  split
  · trivial
  · exact (returns_deleteOrphans _).bind fun _ => Prog.returns_ret _

/-! ## Phases under their `try` -/

section

variable {Rate : Type}

theorem returns_tryPhase {Payload : Type} (phase : Dreamer Rate (String × Payload)) :
    Prog.Returns (tryPhase phase) :=
  (Prog.returns_attempt _).bind fun o => by rcases o with e | ⟨line, payload⟩ <;> trivial

theorem returns_repairStep {out : RepairOutcome Rate} {q : DreamRequest}
    {next : q.Result Rate → Dreamer Rate (RepairOutcome Rate)}
    (hnext : ∀ answer, Prog.Returns (next answer)) : Prog.Returns (repairStep out q next) :=
  (Prog.returns_attempt _).bind fun answer => by
    rcases answer with e | answer
    · trivial
    · exact hnext answer

variable {Score : Type} [LinearOrder Score] (cfg : DreamSettings Score)

omit [LinearOrder Score] in
theorem returns_dlqHealth (classes : List String) (out : RepairOutcome Rate) :
    Prog.Returns (dlqHealth classes out) :=
  returns_repairStep fun _ => returns_repairStep fun _ => Prog.returns_ret _

omit [LinearOrder Score] in
theorem returns_dreamPhase4 : Prog.Returns (dreamPhase4 cfg : Dreamer Rate _) := by
  refine returns_repairStep fun repaired => returns_repairStep fun stats => ?_
  split
  · exact returns_dlqHealth _ _
  split
  · exact returns_repairStep fun replayed => returns_dlqHealth _ _
  · exact returns_dlqHealth _ _

/-- The four phases come to their end, with a report of this run. -/
theorem run_dreamPhases {S : Type}
    (h : Handler DreamRequest (fun q => Except String (q.Result Rate)) S) (clock : DreamClock)
    (gid : String) (force : Bool) (s : S) :
    ∃ report s', Prog.run h (dreamPhases cfg clock gid force : Dreamer Rate _) s =
      (.ok report, s') ∧ report.clock = clock := by
  have hreturns : Prog.Returns (dreamPhases cfg clock gid force : Dreamer Rate _) :=
    (returns_tryPhase _).bind fun _ => (returns_tryPhase _).bind fun _ =>
      (returns_tryPhase _).bind fun _ => (returns_dreamPhase4 cfg).bind fun _ =>
        Prog.returns_ret _
  have hgives : Prog.Gives (fun report : DreamReport Score Rate => report.clock = clock)
      (dreamPhases cfg clock gid force : Dreamer Rate _) :=
    (Prog.gives_true _).bind fun _ _ => (Prog.gives_true _).bind fun _ _ =>
      (Prog.gives_true _).bind fun _ _ => (Prog.gives_true _).bind fun _ _ =>
        Prog.gives_ret rfl
  obtain ⟨report, s', hrun⟩ := hreturns.run h s
  exact ⟨report, s', hrun, hgives.run hrun⟩

/-! ## `dream_runs` -/

/-- A row says what the report says. -/
structure DreamRun.Agrees (row : DreamRun) (report : DreamReport Score Rate) : Prop where
  startedAt : row.startedAt = report.clock.startedAt
  completedAt : row.completedAt = some report.clock.completedAt
  status : row.status = report.status
  phase1 : row.phase1Status = report.cluster.line
  phase2 : row.phase2Status = report.dedup.line
  phase3 : row.phase3Status = report.prune.line
  phase4 : row.phase4Status = report.repair.line
  errorMessage : row.errorMessage =
    if report.failedPhases = [] then none else some ("; ".intercalate report.failedPhases)

/-- The row that a run opens. -/
def DreamRun.opened (clock : DreamClock) : DreamRun := { startedAt := clock.startedAt }

omit [LinearOrder Score] in
/-- Closed with the arguments of a report, the row says what it says. -/
theorem DreamRun.agrees_update {report : DreamReport Score Rate} {clock : DreamClock}
    (hclock : report.clock = clock) (evaluated : ℕ) :
    ((DreamRun.opened clock).update (report.update evaluated)).Agrees report where
  startedAt := by rw [hclock]; rfl
  completedAt := rfl
  status := rfl
  phase1 := rfl
  phase2 := rfl
  phase3 := rfl
  phase4 := rfl
  errorMessage := by
    simp only [DreamRun.update, DreamReport.update, DreamRun.opened]
    split <;> rfl

variable {W : Type} (host : DreamHost Rate W)

/-- A request that does not write to `dream_runs`. -/
def DreamRequest.LeavesRuns : DreamRequest → Prop
  | .recordDreamRun .. | .updateDreamRun .. => False
  | _ => True

theorem runs_handle {q : DreamRequest} (hq : q.LeavesRuns) (w : DreamWorld W) :
    (host.handle q w).2.runs = w.runs := by
  cases q with
  | recordDreamRun runId row => exact hq.elim
  | updateDreamRun runId update => exact hq.elim
  | _ => rfl

/-- The phases do not write there. -/
theorem along_dreamPhases (clock : DreamClock) (gid : String) (force : Bool) (w : DreamWorld W) :
    Prog.Along host.handle (fun v => v.runs = w.runs)
      (dreamPhases cfg clock gid force : Dreamer Rate _) w := by
  have honly : Prog.Only DreamRequest.LeavesRuns
      (dreamPhases cfg clock gid force : Dreamer Rate _) :=
    only_dreamPhases cfg
      { getStats := trivial
        connect := trivial
        cluster := fun _ _ => trivial
        prune := fun _ _ => trivial
        dedup := fun _ _ => trivial
        reap := fun _ => trivial
        fairness := fun _ => trivial
        replay := fun _ _ _ _ => trivial
        counts := fun _ => trivial } clock gid
  exact honly.along (fun q v hq hv => (runs_handle host hq v).trans hv) rfl

theorem dreamRequest_attempt_bind {α : Type} (q : DreamRequest)
    (f : Except String (q.Result Rate) → Dreamer Rate α) :
    ((dreamRequest q).attempt : Dreamer Rate (Except String _)) >>= f = .ask q f := by
  rw [dreamRequest, Prog.attempt_ask_bind id fun answer => by cases answer <;> rfl]
  rfl

/-- A run, request by request around its phases. -/
theorem runDreamConsolidation_eq (clock : DreamClock) (force : Bool) (groupId : Option String) :
    (runDreamConsolidation cfg clock force groupId : Dreamer Rate _) =
      .ask (.recordDreamRun clock.runId (.opened clock)) fun _ =>
        dreamPhases cfg clock (dedupGroup groupId cfg.groupId) force >>= fun report =>
          .ask .getStats fun stats =>
            .ask (.updateDreamRun clock.runId (report.update (episodesEvaluated stats))) fun _ =>
              .ask .emitQuick fun _ => .ret report := by
  refine (dreamRequest_attempt_bind _ _).trans (congrArg _ (funext fun _ => ?_))
  refine congrArg (Prog.bind _) (funext fun report => ?_)
  refine (dreamRequest_attempt_bind _ _).trans (congrArg _ (funext fun stats => ?_))
  refine (dreamRequest_attempt_bind _ _).trans (congrArg _ (funext fun _ => ?_))
  exact dreamRequest_attempt_bind _ _

/-- What `dream_runs` has at `v` for a run with this report, which began at `w` and comes to
`last`; `opened` says whether the first write was carried out. -/
structure Audited (clock : DreamClock) (report : DreamReport Score Rate) (opened : Bool)
    (w last v : DreamWorld W) : Prop where
  others : ∀ id, id ≠ clock.runId → v.runs.get? id = w.runs.get? id
  isSome : (v.runs.get? clock.runId).isSome = opened
  row : ∀ row, v.runs.get? clock.runId = some row → row = .opened clock ∨
    row.Agrees report ∧ (v = last ∨ (host.handle .emitQuick v).2 = last)

variable {host} {clock : DreamClock} {report : DreamReport Score Rate} {w : DreamWorld W}

omit [LinearOrder Score] in
/-- After the first write, and as long as nothing else is written. -/
theorem audited_opened (report : DreamReport Score Rate)
    (hfresh : w.runs.get? clock.runId = none) {v : DreamWorld W}
    (hruns : v.runs = (host.handle (.recordDreamRun clock.runId (.opened clock)) w).2.runs)
    (last : DreamWorld W) :
    Audited host clock report (host.handle (.recordDreamRun clock.runId (.opened clock)) w).1.isOk
        w last v ∧
      ∀ row, v.runs.get? clock.runId = some row → row = .opened clock := by
  have hnone : ∀ {v : DreamWorld W}, v.runs = w.runs → ∀ row,
      v.runs.get? clock.runId ≠ some row := by
    intro v hsame row hrow
    rw [hsame, hfresh] at hrow
    cases hrow
  cases hok : (host.handle (.recordDreamRun clock.runId (.opened clock)) w).1.isOk with
  | false =>
    have hsame : v.runs = w.runs := by
      rw [hruns]
      exact if_neg (Bool.eq_false_iff.mp hok)
    exact ⟨⟨fun id _ => by rw [hsame], by rw [hsame, hfresh]; rfl,
      fun row hrow => (hnone hsame row hrow).elim⟩, fun row hrow => (hnone hsame row hrow).elim⟩
  | true =>
    have hput : v.runs = w.runs.put clock.runId (.opened clock) := by
      rw [hruns]
      exact if_pos hok
    have hrow : ∀ row, v.runs.get? clock.runId = some row → row = .opened clock := by
      intro row hrow
      rw [hput, Table.get?_put_self] at hrow
      exact (Option.some.inj hrow).symm
    exact ⟨⟨fun id hid => by rw [hput, Table.get?_put_ne _ _ hid], by rw [hput]; simp,
      fun row hget => .inl (hrow row hget)⟩, hrow⟩

omit [LinearOrder Score] in
/-- The last write closes the row, if it is carried out. -/
theorem Audited.update {opened : Bool} {last v : DreamWorld W}
    (haudited : Audited host clock report opened w last v) (hclock : report.clock = clock)
    (hrow : ∀ row, v.runs.get? clock.runId = some row → row = .opened clock)
    (stats : Except String QueueStats) (v' : DreamWorld W)
    (hruns : v'.runs = (host.handle
      (.updateDreamRun clock.runId (report.update (episodesEvaluated stats))) v).2.runs)
    (hlast : v' = last ∨ (host.handle .emitQuick v').2 = last) :
    Audited host clock report opened w last v' ∧
      ((host.handle (.updateDreamRun clock.runId (report.update (episodesEvaluated stats)))
        v).1.isOk → ∀ row, v'.runs.get? clock.runId = some row → row.Agrees report) := by
  cases hok : (host.handle
      (.updateDreamRun clock.runId (report.update (episodesEvaluated stats))) v).1.isOk with
  | false =>
    have hsame : v'.runs = v.runs := by
      rw [hruns]
      exact if_neg (Bool.eq_false_iff.mp hok)
    refine ⟨⟨fun id hid => ?_, ?_, fun row hget => .inl ?_⟩, by simp⟩
    · rw [hsame, haudited.others id hid]
    · rw [hsame, haudited.isSome]
    · exact hrow row (hsame ▸ hget)
  | true =>
    have hmodify : v'.runs = v.runs.modify clock.runId fun row =>
        row.update (report.update (episodesEvaluated stats)) := by
      rw [hruns]
      exact if_pos hok
    have hagrees : ∀ row, v'.runs.get? clock.runId = some row → row.Agrees report := by
      intro row hget
      rw [hmodify, Table.get?_modify_self, Option.map_eq_some_iff] at hget
      obtain ⟨old, hold, rfl⟩ := hget
      rw [hrow old hold]
      exact DreamRun.agrees_update hclock _
    refine ⟨⟨fun id hid => ?_, ?_, fun row hget => .inr ⟨hagrees row hget, hlast⟩⟩,
      fun _ => hagrees⟩
    · rw [hmodify, Table.get?_modify_ne _ _ hid, haudited.others id hid]
    · rw [hmodify, Table.get?_modify_self, Option.isSome_map, haudited.isSome]

variable (host) (clock) (w)

/-- What a run begins its phases on: its row was opened, or that was refused. -/
def DreamHost.begun : DreamWorld W :=
  (host.handle (.recordDreamRun clock.runId (.opened clock)) w).2

/-- What a run reads of the queue before it closes its row, and where it closes it. -/
def DreamHost.closing (force : Bool) (groupId : Option String) :
    Except String QueueStats × DreamWorld W :=
  host.handle .getStats (Prog.run host.handle
    (dreamPhases cfg clock (dedupGroup groupId cfg.groupId) force : Dreamer Rate _)
    (host.begun clock w)).2

/-- **The audit trail.** Wherever a run is stopped, `dream_runs` has a row for it from the
first write on, unless that write was refused: the opened row, or one that says what the
report says. That one is there only when all that is left to do is to send the report, and it
is there at the end, unless the last write was refused. The rows of other runs stay. -/
theorem dream_run_audited (force : Bool) (groupId : Option String)
    (hfresh : w.runs.get? clock.runId = none) :
    ∃ (report : DreamReport Score Rate) (last : DreamWorld W),
      Prog.run host.handle (runDreamConsolidation cfg clock force groupId) w =
          (.ok report, last) ∧
        (∀ n, Audited host clock report (n != 0 &&
            (host.handle (.recordDreamRun clock.runId (.opened clock)) w).1.isOk) w last
          (Prog.crash host.handle n (runDreamConsolidation cfg clock force groupId) w)) ∧
        ((host.handle (.updateDreamRun clock.runId (report.update
            (episodesEvaluated (host.closing cfg clock w force groupId).1)))
            (host.closing cfg clock w force groupId).2).1.isOk →
          ∀ row, last.runs.get? clock.runId = some row → row.Agrees report) := by
  -- the states between the requests: `w₁` when the row was opened, `w₂` after the phases
  let w₁ := host.begun clock w
  obtain ⟨report, w₂, hphases, hclock⟩ := run_dreamPhases cfg host.handle clock
    (dedupGroup groupId cfg.groupId) force w₁
  have halong := along_dreamPhases cfg host clock (dedupGroup groupId cfg.groupId) force w₁
  have hruns₂ : w₂.runs = w₁.runs := by
    have hend := halong.run
    rwa [hphases] at hend
  let stats := (host.handle .getStats w₂).1
  let w₃ := (host.handle .getStats w₂).2
  let w₄ := (host.handle (.updateDreamRun clock.runId
    (report.update (episodesEvaluated stats))) w₃).2
  let last := (host.handle .emitQuick w₄).2
  have hruns₃ : w₃.runs = w₁.runs := hruns₂
  have hopened : ∀ {v : DreamWorld W}, v.runs = w₁.runs → Audited host clock report
      (host.handle (.recordDreamRun clock.runId (.opened clock)) w).1.isOk w last v :=
    fun hv => (audited_opened report hfresh hv last).1
  have hrow₃ := (audited_opened report hfresh hruns₃ last).2
  have hclosed₄ := (hopened hruns₃).update hclock hrow₃ stats w₄ rfl (.inr rfl)
  have hclosed₅ := (hopened hruns₃).update hclock hrow₃ stats last rfl (.inl rfl)
  refine ⟨report, last, ?_, ?_, ?_⟩
  · rw [runDreamConsolidation_eq, Prog.run_ask]
    exact (Prog.run_bind_ok hphases).trans rfl
  · rintro (_ | n)
    · rw [Prog.crash_zero]
      refine ⟨fun _ _ => rfl, by rw [hfresh]; rfl, fun row hrow => ?_⟩
      rw [hfresh] at hrow
      cases hrow
    · rw [runDreamConsolidation_eq, Prog.crash_succ_ask]
      refine Prog.along_iff.mp ?_ n
      refine (Prog.along_bind_ok hphases).mpr ⟨halong.mono fun v => hopened, ?_⟩
      exact ⟨hopened hruns₂, hopened hruns₃, hclosed₄.1, hclosed₅.1⟩
  · have hclosing : host.closing cfg clock w force groupId = (stats, w₃) := by
      rw [DreamHost.closing, hphases]
    rw [hclosing]
    exact hclosed₅.2

/-- A host whose queue is empty and refuses nothing. -/
def calmHost : DreamHost ℕ Unit where
  server := inOrder
  answer
    | .recordDreamRun .., _ => (.ok (), ())
    | .updateDreamRun .., _ => (.ok (), ())
    | .getStats, _ => (.ok ⟨fun _ => 0, 0⟩, ())
    | .connect, _ => (.ok (), ())
    | .reapFailedOrAborted _, _ => (.ok 0, ())
    | .reapFairnessStats _, _ => (.ok ⟨0, 0, 0, 0, none, none⟩, ())
    | .replayDlqBatch .., _ => (.ok 0, ())
    | .dlqClassCounts _, _ => (.ok Table.empty, ())
    | .emitQuick, _ => (.ok (), ())
    | .cluster _, _ => (.error "not a graph", ())
    | .prune _, _ => (.error "not a graph", ())
    | .dedup _, _ => (.error "not a graph", ())

/-- Settings whose scores do not tell pairs apart. -/
def calmSettings : DreamSettings Unit where
  dedup :=
    { scoring := evenScores
      sha1 := id
      threshold := ()
      describe := fun _ _ _ => ""
      undoWriter := none }
  order := .added
  sha256 := id
  minDegree := 3
  showClasses _ := ""

theorem dream_run_audited_calm :
    ∃ (report : DreamReport Unit ℕ) (last : DreamWorld Unit),
      Prog.run calmHost.handle
          (runDreamConsolidation calmSettings ⟨"run", "start", "end"⟩ false none)
          ⟨⟨twins "t", 0, []⟩, Table.empty, ()⟩ = (.ok report, last) ∧
        ∀ row, last.runs.get? "run" = some row → row.Agrees report := by
  obtain ⟨report, last, hrun, -, hlast⟩ := dream_run_audited calmSettings calmHost
    ⟨"run", "start", "end"⟩ ⟨⟨twins "t", 0, []⟩, Table.empty, ()⟩ false none rfl
  exact ⟨report, last, hrun, hlast rfl⟩

end

end JanusGraph
