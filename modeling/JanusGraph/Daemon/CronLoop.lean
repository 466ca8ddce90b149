import JanusGraph.Daemon.Breaker
import JanusGraph.Lib.Calendar
import Mathlib.Data.List.DropRight

/-!
# The cron loop of the daemon

`CronLoop` of `daemon/cron_loop.py`: one task sweeps every few minutes, the other looks at the wall
clock every minute and starts the dream run at 02:30 ICT, once a day. Both ask the breaker first.
Between two of its awaits a task runs alone; when its waits and the runs it has started come to an
end, and what happens to the breaker meanwhile, is up to the schedule.

`lastRunDate` is all that keeps a second run of the day away, and it is a local of the task: a loop
that is stopped and started again within the dream hour does not know of the run before. So what
the log says of the runs is said twice, of the time since the last start (`DreamSound`) and, with
the starts, of all the time (`DreamHistory`).
-/

namespace JanusGraph

open Calendar

/-! ## The loop -/

/-- `CircuitState.name`, which is what `_state_str` makes of it. -/
def CircuitState.name : CircuitState → String
  | .closed => "CLOSED"
  | .opened => "OPEN"
  | .halfOpen => "HALF_OPEN"

/-- The fields of `CronLoop` that `/health` reports. -/
structure CronLoop (σ ρ : Type) : Type where
  running : Bool := false
  lastSweepAt : Option ℚ := none
  lastSweepStats : Option σ := none
  lastDreamAt : Option ℚ := none
  lastDreamResult : Option ρ := none
  lastSweepAtIso : Option DateTime := none
  lastDreamAtIso : Option DateTime := none
  tickCount : ℕ := 0
  skippedCircuitOpen : ℕ := 0

/-- What a task of the loop awaits: its interval, or the run it has started. -/
inductive TaskPhase (α : Type) : Type where
  | waiting
  | under (a : α)

/-- The task of `_dream_loop`; a run is under way for the date of its check. -/
structure DreamTask : Type where
  lastRunDate : Option Date
  phase : TaskPhase Date

/-- What the loop logs, and the readings of the wall clock. -/
inductive CronEntry : Type where
  | started
  | sweepSkipped (skipCount : ℕ)
  | sweepDone (tickCount : ℕ)
  | sweepRaised (error : String)
  | dreamChecked (now : DateTime) (state : CircuitState)
  | dreamSkipped
  | dreamStarted (date : Date)
  | dreamCompleted (date : Date)
  | dreamRaised (date : Date) (error : String)
  deriving DecidableEq

/-- The loop, its tasks and the breaker. -/
structure CronRun (σ ρ : Type) : Type where
  breaking : Breaking
  cron : CronLoop σ ρ
  /-- the task of `_sweep_loop` -/
  sweep : Option (TaskPhase Unit)
  dream : Option DreamTask
  /-- oldest first -/
  log : List CronEntry

/-- One entry of a schedule. -/
inductive CronTurn (σ ρ : Type) : Type where
  | start
  /-- `stop`, with the tasks drained: each is cancelled at its await -/
  | stop
  /-- the interval of `_sweep_loop` is over; its first one is five seconds -/
  | sweepWakes
  /-- `run_cron_sweep` is over -/
  | sweepEnds (outcome : Except String σ) (time : ℚ) (now : DateTime)
  /-- `_dream_loop` looks at the clock -/
  | dreamWakes (now : DateTime)
  /-- `run_dream_consolidation` is over -/
  | dreamEnds (outcome : Except String ρ) (time : ℚ) (now : DateTime)
  | breaker (call : BreakerCall)

/-- `ict_hour == DREAM_HOUR_ICT and now_utc.minute >= DREAM_MINUTE_ICT`, with `ict_hour` from UTC. -/
def isDreamTime (now : DateTime) : Bool := (now.hour + 7) % 24 = 2 && 30 ≤ now.minute

variable {σ ρ : Type}

namespace CronRun

/-- The run with more in its log. -/
def logged (w : CronRun σ ρ) (entries : List CronEntry) : CronRun σ ρ :=
  { w with log := w.log ++ entries }

/-- `start` -/
def start (cronEnabled : Bool) (w : CronRun σ ρ) : CronRun σ ρ :=
  if cronEnabled = false then w
  else if w.cron.running then w
  else
    { w with
      cron := { w.cron with running := true }
      sweep := some .waiting
      dream := some ⟨none, .waiting⟩
      log := w.log ++ [.started] }

/-- `stop` -/
def stop (w : CronRun σ ρ) : CronRun σ ρ :=
  if w.cron.running then
    { w with cron := { w.cron with running := false }, sweep := none, dream := none }
  else w

/-- `_sweep_loop`, from the end of an interval to the next await. -/
def sweepWakes (w : CronRun σ ρ) : CronRun σ ρ :=
  match w.sweep with
  | some .waiting =>
    if w.breaking.breaker.state.name = "OPEN" then
      { w with
        cron := { w.cron with skippedCircuitOpen := w.cron.skippedCircuitOpen + 1 }
        log := w.log ++ [.sweepSkipped (w.cron.skippedCircuitOpen + 1)] }
    else { w with sweep := some (.under ()) }
  | _ => w

/-- `_sweep_loop`, when the sweep has returned or raised. -/
def sweepEnds (outcome : Except String σ) (time : ℚ) (now : DateTime) (w : CronRun σ ρ) :
    CronRun σ ρ :=
  match w.sweep with
  | some (.under _) =>
    let w := { w with sweep := some .waiting }
    match outcome with
    | .ok stats =>
      { w with
        cron := { w.cron with
          lastSweepAt := some time
          lastSweepAtIso := some now
          lastSweepStats := some stats
          tickCount := w.cron.tickCount + 1 }
        log := w.log ++ [.sweepDone (w.cron.tickCount + 1)] }
    | .error e => w.logged [.sweepRaised e]
  | _ => w

/-- `_dream_loop`, from the end of an interval to the next await. -/
def dreamWakes (now : DateTime) (w : CronRun σ ρ) : CronRun σ ρ :=
  match w.dream with
  | some ⟨lastRunDate, .waiting⟩ =>
    let state := w.breaking.breaker.state
    let w := w.logged [.dreamChecked now state]
    if isDreamTime now ∧ lastRunDate ≠ some now.date then
      if state.name = "OPEN" then w.logged [.dreamSkipped]
      else
        { w with
          dream := some ⟨lastRunDate, .under now.date⟩
          log := w.log ++ [.dreamStarted now.date] }
    else w
  | _ => w

/-- `_dream_loop`, when the dream run has returned or raised. -/
def dreamEnds (outcome : Except String ρ) (time : ℚ) (now : DateTime) (w : CronRun σ ρ) :
    CronRun σ ρ :=
  match w.dream with
  | some ⟨lastRunDate, .under date⟩ =>
    match outcome with
    | .ok result =>
      { w with
        cron := { w.cron with
          lastDreamAt := some time
          lastDreamAtIso := some now
          lastDreamResult := some result }
        dream := some ⟨some date, .waiting⟩
        log := w.log ++ [.dreamCompleted date] }
    | .error e =>
      { w with
        dream := some ⟨lastRunDate, .waiting⟩
        log := w.log ++ [.dreamRaised date e] }
  | _ => w

section

variable (settings : FalkorCircuitSettings) (clock : Clock) (hook : Option OnCircuitOpenedCallback)
  (cronEnabled : Bool)

/-- One turn of a schedule. -/
def turn (w : CronRun σ ρ) : CronTurn σ ρ → CronRun σ ρ
  | .start => w.start cronEnabled
  | .stop => w.stop
  | .sweepWakes => w.sweepWakes
  | .sweepEnds outcome time now => w.sweepEnds outcome time now
  | .dreamWakes now => w.dreamWakes now
  | .dreamEnds outcome time now => w.dreamEnds outcome time now
  | .breaker call => { w with breaking := w.breaking.call settings clock hook call }

/-- A loop that has not been started. -/
def init : CronRun σ ρ := ⟨.init clock, {}, none, none, []⟩

/-- A run. -/
def run (turns : List (CronTurn σ ρ)) : CronRun σ ρ :=
  turns.foldl (turn settings clock hook cronEnabled) (.init clock)

end

end CronRun

/-! ## What the log says -/

/-- The readings of the wall clock. -/
def readings (log : List CronEntry) : List DateTime :=
  log.filterMap fun
    | .dreamChecked now _ => some now
    | _ => none

/-- The dates of the runs that were completed. -/
def completedDates (log : List CronEntry) : List Date :=
  log.filterMap fun
    | .dreamCompleted date => some date
    | _ => none

/-- The log since the last start. -/
def sinceStart (log : List CronEntry) : List CronEntry := log.rtakeWhile (· ≠ .started)

/-- The wall clock does not go back. -/
def Forward (log : List CronEntry) : Prop :=
  (readings log).Pairwise fun now now' => now.instant ≤ now'.instant

/-- A check at which the run of a date may start. -/
def CronEntry.Admits (date : Date) : CronEntry → Prop
  | .dreamChecked now state => now.date = date ∧ isDreamTime now = true ∧ state ≠ .opened
  | _ => False

/-- How the log since the last start and the task of the dream go together. -/
structure DreamSound (dream : Option DreamTask) (log : List CronEntry) : Prop where
  /-- the task remembers the last date that was completed -/
  last : ∀ task, dream = some task → task.lastRunDate = (completedDates log).getLast?
  /-- a run that is under way was started by the last check, for a date after those -/
  under : ∀ task date, dream = some task → task.phase = .under date →
    (∀ d ∈ completedDates log, d.ordinal < date.ordinal) ∧
      ∃ now, (readings log).getLast? = some now ∧ now.date = date ∧ isDreamTime now = true
  sorted : (completedDates log).Pairwise fun d e => d.ordinal < e.ordinal
  /-- a completed date was read off the clock -/
  read : ∀ d ∈ completedDates log, ∃ now ∈ readings log, now.date = d
  /-- when nothing is under way, every check has been followed up -/
  settled : ∀ task, dream = some task → task.phase = .waiting → ∀ entry ∈ log, ∀ date,
    entry.Admits date → date ∈ completedDates log ∨ ∃ e, .dreamRaised date e ∈ log
  pending : ∀ entry ∈ log, ∀ date, entry.Admits date →
    date ∈ completedDates log ∨ (∃ e, .dreamRaised date e ∈ log) ∨
      ∃ now, (readings log).getLast? = some now ∧ now.date = date ∧ isDreamTime now = true

/-- What the whole log says of the runs. -/
structure DreamHistory (log : List CronEntry) : Prop where
  read : ∀ d ∈ completedDates log, ∃ now ∈ readings log, now.date = d
  started : ∀ date, .dreamStarted date ∈ log → ∃ entry ∈ log, entry.Admits date
  /-- of two completed runs the later one has a later date, or the same after another start -/
  order : ∀ (i j : ℕ) (d e : Date), i < j → log[i]? = some (.dreamCompleted d) →
    log[j]? = some (.dreamCompleted e) →
      d.ordinal < e.ordinal ∨ d = e ∧ ∃ k, i < k ∧ k < j ∧ log[k]? = some .started

/-! ## Steps -/

@[simp] theorem readings_append (log log' : List CronEntry) :
    readings (log ++ log') = readings log ++ readings log' := List.filterMap_append

@[simp] theorem completedDates_append (log log' : List CronEntry) :
    completedDates (log ++ log') = completedDates log ++ completedDates log' :=
  List.filterMap_append

theorem mem_completedDates {log : List CronEntry} {date : Date} :
    date ∈ completedDates log ↔ .dreamCompleted date ∈ log := by
  rw [completedDates, List.mem_filterMap]
  constructor
  · rintro ⟨entry, hentry, heq⟩
    cases entry with
    | dreamCompleted date' =>
      obtain rfl := Option.some.inj heq
      exact hentry
    | _ => cases heq
  · exact fun hentry => ⟨_, hentry, rfl⟩

theorem sinceStart_started (log : List CronEntry) : sinceStart (log ++ [.started]) = [] :=
  List.rtakeWhile_concat_neg _ _ _ (by simp)

/-- Until the next start the log goes on. -/
theorem sinceStart_append {more : List CronEntry} (h : .started ∉ more) (log : List CronEntry) :
    sinceStart (log ++ more) = sinceStart log ++ more := by
  induction more using List.reverseRecOn with
  | nil => rw [List.append_nil, List.append_nil]
  | append_singleton more entry ih =>
    rw [List.mem_append, List.mem_singleton, not_or] at h
    have hlast : sinceStart (log ++ more ++ [entry]) = sinceStart (log ++ more) ++ [entry] :=
      List.rtakeWhile_concat_pos _ _ _ (decide_eq_true (Ne.symm h.2))
    rw [← List.append_assoc, hlast, ih h.1, List.append_assoc]

/-- An entry with no start after it was logged since the last one. -/
theorem mem_sinceStart {log : List CronEntry} {i : ℕ} {entry : CronEntry}
    (hentry : log[i]? = some entry) (hstart : entry ≠ .started)
    (hnone : ∀ k, i < k → log[k]? ≠ some .started) : entry ∈ sinceStart log := by
  induction log using List.reverseRecOn with
  | nil => cases hentry
  | append_singleton log last ih =>
    have hi : i < (log ++ [last]).length := (List.getElem?_eq_some_iff.mp hentry).1
    rw [List.length_append, List.length_singleton] at hi
    rcases Nat.lt_succ_iff_lt_or_eq.mp hi with hi | rfl
    · have hlast : last ≠ .started := by
        rintro rfl
        exact hnone log.length hi List.getElem?_concat_length
      rw [List.getElem?_append_left hi] at hentry
      rw [sinceStart_append (by simpa [eq_comm] using hlast)]
      refine List.mem_append_left _ (ih hentry fun k hk hstarted => hnone k hk ?_)
      rwa [List.getElem?_append_left (List.getElem?_eq_some_iff.mp hstarted).1]
    · obtain rfl := Option.some.inj (List.getElem?_concat_length.symm.trans hentry)
      rw [sinceStart_append (by simpa [eq_comm] using hstart)]
      exact List.mem_append_right _ (List.mem_singleton_self _)

theorem readings_sinceStart (log : List CronEntry) :
    readings (sinceStart log) <:+ readings log :=
  List.IsSuffix.filterMap _ (List.rtakeWhile_suffix _ _)

namespace DreamSound

variable {dream : Option DreamTask} {log : List CronEntry} {lastRunDate : Option Date} {date : Date}
  {now : DateTime} {state : CircuitState}

/-- A loop that has just been started. -/
theorem fresh : DreamSound (some ⟨none, .waiting⟩) [] where
  last task htask := by
    obtain rfl := Option.some.inj htask
    rfl
  under task date htask hphase := by
    obtain rfl := Option.some.inj htask
    cases hphase
  sorted := List.Pairwise.nil
  read _ hd := by cases hd
  settled _ _ _ _ hentry := by cases hentry
  pending _ hentry := by cases hentry

/-- The task is cancelled. -/
theorem cancelled (h : DreamSound dream log) : DreamSound none log :=
  { h with
    last := by rintro task ⟨⟩
    under := by rintro task date ⟨⟩
    settled := by rintro task ⟨⟩ }

/-- What is said about the sweeps does not matter. -/
theorem other (h : DreamSound dream log) {entry : CronEntry} (hread : readings [entry] = [])
    (hdone : completedDates [entry] = []) (hadmits : ∀ date, ¬ entry.Admits date) :
    DreamSound dream (log ++ [entry]) := by
  have hr : readings (log ++ [entry]) = readings log := by simp [hread]
  have hc : completedDates (log ++ [entry]) = completedDates log := by simp [hdone]
  have hmem : ∀ {e}, e ∈ log → e ∈ log ++ [entry] := fun he => List.mem_append_left _ he
  have hold : ∀ {e date}, e ∈ log ++ [entry] → e.Admits date → e ∈ log := by
    intro e date he ha
    rcases List.mem_append.mp he with he | he
    · exact he
    · obtain rfl := List.mem_singleton.mp he
      exact absurd ha (hadmits date)
  refine ⟨?_, ?_, ?_, ?_, ?_, ?_⟩
  · rw [hc]
    exact h.last
  · rw [hc, hr]
    exact h.under
  · rw [hc]
    exact h.sorted
  · rw [hc, hr]
    exact h.read
  · intro task htask hphase e he date ha
    rw [hc]
    exact (h.settled task htask hphase e (hold he ha) date ha).imp_right fun ⟨x, hx⟩ => ⟨x, hmem hx⟩
  · intro e he date ha
    rw [hc, hr]
    exact (h.pending e (hold he ha) date ha).imp_right (.imp_left fun ⟨x, hx⟩ => ⟨x, hmem hx⟩)

/-- A check after which nothing is under way: it had nothing to start. -/
theorem checked (h : DreamSound (some ⟨lastRunDate, .waiting⟩) log)
    (hnone : ∀ date, (CronEntry.dreamChecked now state).Admits date → date ∈ completedDates log) :
    DreamSound (some ⟨lastRunDate, .waiting⟩) (log ++ [.dreamChecked now state]) := by
  have hc : completedDates (log ++ [.dreamChecked now state]) = completedDates log := by
    simp [completedDates]
  have hsettled : ∀ entry ∈ log ++ [.dreamChecked now state], ∀ date, entry.Admits date →
      date ∈ completedDates log ∨ ∃ e, .dreamRaised date e ∈ log ++ [.dreamChecked now state] := by
    intro entry hentry date ha
    rcases List.mem_append.mp hentry with hentry | hentry
    · exact (h.settled _ rfl rfl entry hentry date ha).imp_right fun ⟨x, hx⟩ =>
        ⟨x, List.mem_append_left _ hx⟩
    · obtain rfl := List.mem_singleton.mp hentry
      exact .inl (hnone date ha)
  refine ⟨?_, ?_, ?_, ?_, ?_, ?_⟩
  · rw [hc]
    exact h.last
  · rintro task date htask hphase
    obtain rfl := Option.some.inj htask
    cases hphase
  · rw [hc]
    exact h.sorted
  · intro d hd
    rw [hc] at hd
    obtain ⟨r, hr, hdate⟩ := h.read d hd
    exact ⟨r, by simp [hr], hdate⟩
  · intro task htask hphase
    rw [hc]
    exact hsettled
  · intro entry hentry date ha
    rw [hc]
    exact (hsettled entry hentry date ha).imp_right .inl

/-- The dates that are completed are not after a later reading. -/
theorem completed_le (h : DreamSound dream log)
    (hforward : ∀ r ∈ readings log, r.instant ≤ now.instant) {d : Date}
    (hd : d ∈ completedDates log) : d.ordinal ≤ now.date.ordinal := by
  obtain ⟨r, hr, rfl⟩ := h.read d hd
  exact DateTime.ordinal_le (hforward r hr)

/-- The date of a later reading that is not the last that was completed is after all of them. -/
theorem completed_lt (h : DreamSound (some ⟨lastRunDate, .waiting⟩) log)
    (hforward : ∀ r ∈ readings log, r.instant ≤ now.instant) (hnew : lastRunDate ≠ some now.date)
    {d : Date} (hd : d ∈ completedDates log) : d.ordinal < now.date.ordinal := by
  have hlast : lastRunDate = (completedDates log).getLast? := h.last _ rfl
  obtain ⟨init, e, he⟩ := List.eq_nil_or_concat (completedDates log) |>.resolve_left
    (List.ne_nil_of_mem hd)
  rw [List.concat_eq_append] at he
  have hlast' : lastRunDate = some e := by rw [hlast, he, List.getLast?_concat]
  have hle : d.ordinal ≤ e.ordinal := by
    rw [he] at hd
    rcases List.mem_append.mp hd with hd | hd
    · have hsorted := h.sorted
      rw [he] at hsorted
      exact ((List.pairwise_append.mp hsorted).2.2 d hd e List.mem_cons_self).le
    · rw [List.mem_singleton.mp hd]
  have hle' : e.ordinal ≤ now.date.ordinal := h.completed_le hforward (by rw [he]; simp)
  have hne : e.ordinal ≠ now.date.ordinal := fun heq =>
    hnew (by rw [hlast', Date.ordinal_injective heq])
  omega

/-- A check that starts a run. -/
theorem starts (h : DreamSound (some ⟨lastRunDate, .waiting⟩) log)
    (hforward : ∀ r ∈ readings log, r.instant ≤ now.instant) (htime : isDreamTime now = true)
    (hnew : lastRunDate ≠ some now.date) :
    DreamSound (some ⟨lastRunDate, .under now.date⟩)
      (log ++ [.dreamChecked now state] ++ [.dreamStarted now.date]) := by
  have hc : completedDates (log ++ [.dreamChecked now state] ++ [.dreamStarted now.date]) =
      completedDates log := by simp [completedDates]
  have hr : readings (log ++ [.dreamChecked now state] ++ [.dreamStarted now.date]) =
      readings log ++ [now] := by simp [readings]
  have hlast : (readings log ++ [now]).getLast? = some now := List.getLast?_concat
  refine ⟨?_, ?_, ?_, ?_, ?_, ?_⟩
  · have hremembers : lastRunDate = (completedDates log).getLast? := h.last _ rfl
    rintro task htask
    obtain rfl := Option.some.inj htask
    rw [hc]
    exact hremembers
  · rintro task date htask hphase
    obtain rfl := Option.some.inj htask
    obtain rfl := TaskPhase.under.inj hphase
    rw [hc, hr]
    exact ⟨fun d hd => h.completed_lt hforward hnew hd, now, hlast, rfl, htime⟩
  · rw [hc]
    exact h.sorted
  · intro d hd
    rw [hc] at hd
    obtain ⟨r, hmem, hdate⟩ := h.read d hd
    exact ⟨r, hr ▸ List.mem_append_left _ hmem, hdate⟩
  · rintro task htask hphase
    obtain rfl := Option.some.inj htask
    cases hphase
  · intro entry hentry date ha
    rw [hc, hr]
    simp only [List.append_assoc, List.cons_append, List.nil_append, List.mem_append,
      List.mem_cons, List.not_mem_nil, or_false] at hentry
    rcases hentry with hentry | rfl | rfl
    · refine (h.settled _ rfl rfl entry hentry date ha).imp_right fun ⟨x, hx⟩ => .inl ⟨x, ?_⟩
      simp [hx]
    · exact .inr (.inr ⟨now, hlast, ha.1, htime⟩)
    · exact ha.elim

/-- Once the run under way is over, every check has been followed up. -/
theorem followed (h : DreamSound (some ⟨lastRunDate, .under date⟩) log) (entry : CronEntry)
    (hread : readings [entry] = []) (hadmits : ∀ date, ¬ entry.Admits date)
    (hover : date ∈ completedDates (log ++ [entry]) ∨ ∃ e, .dreamRaised date e ∈ log ++ [entry]) :
    ∀ entry' ∈ log ++ [entry], ∀ date', entry'.Admits date' →
      date' ∈ completedDates (log ++ [entry]) ∨ ∃ e, .dreamRaised date' e ∈ log ++ [entry] := by
  obtain ⟨-, now, hnow, hdate, -⟩ := h.under _ date rfl rfl
  intro entry' hentry' date' ha
  rcases List.mem_append.mp hentry' with hentry' | hentry'
  · rcases h.pending entry' hentry' date' ha with hdone | ⟨e, he⟩ | ⟨now', hnow', hdate', -⟩
    · exact .inl (by simp [hdone])
    · exact .inr ⟨e, List.mem_append_left _ he⟩
    · -- this was the check that started the run
      obtain rfl := Option.some.inj (hnow.symm.trans hnow')
      rw [← hdate', hdate]
      exact hover
  · obtain rfl := List.mem_singleton.mp hentry'
    exact absurd ha (hadmits date')

/-- The run under way has raised. -/
theorem raised (h : DreamSound (some ⟨lastRunDate, .under date⟩) log) (e : String) :
    DreamSound (some ⟨lastRunDate, .waiting⟩) (log ++ [.dreamRaised date e]) := by
  have hc : completedDates (log ++ [.dreamRaised date e]) = completedDates log := by
    simp [completedDates]
  have hr : readings (log ++ [.dreamRaised date e]) = readings log := by simp [readings]
  have hremembers : lastRunDate = (completedDates log).getLast? := h.last _ rfl
  have hfollowed := h.followed (.dreamRaised date e) rfl (fun _ ha => ha)
    (.inr ⟨e, by simp⟩)
  refine ⟨?_, ?_, hc ▸ h.sorted, ?_, fun _ _ _ => hfollowed, ?_⟩
  · rintro task htask
    obtain rfl := Option.some.inj htask
    rw [hc]
    exact hremembers
  · rintro task date' htask hphase
    obtain rfl := Option.some.inj htask
    cases hphase
  · rw [hc, hr]
    exact h.read
  · exact fun entry hentry date' ha => (hfollowed entry hentry date' ha).imp_right .inl

/-- The run under way has returned. -/
theorem completed (h : DreamSound (some ⟨lastRunDate, .under date⟩) log) :
    DreamSound (some ⟨some date, .waiting⟩) (log ++ [.dreamCompleted date]) := by
  obtain ⟨hafter, now, hnow, hdate, -⟩ := h.under _ date rfl rfl
  have hc : completedDates (log ++ [.dreamCompleted date]) = completedDates log ++ [date] := by
    simp [completedDates]
  have hr : readings (log ++ [.dreamCompleted date]) = readings log := by simp [readings]
  have hfollowed := h.followed (.dreamCompleted date) rfl (fun _ ha => ha)
    (.inl (by simp [hc]))
  refine ⟨?_, ?_, ?_, ?_, fun _ _ _ => hfollowed, ?_⟩
  · rintro task htask
    obtain rfl := Option.some.inj htask
    rw [hc, List.getLast?_concat]
  · rintro task date' htask hphase
    obtain rfl := Option.some.inj htask
    cases hphase
  · rw [hc]
    refine List.pairwise_append.mpr ⟨h.sorted, List.pairwise_singleton _ _, ?_⟩
    intro d hd d' hd'
    obtain rfl := List.mem_singleton.mp hd'
    exact hafter d hd
  · intro d hd
    rw [hc] at hd
    rw [hr]
    rcases List.mem_append.mp hd with hd | hd
    · exact h.read d hd
    · obtain rfl := List.mem_singleton.mp hd
      exact ⟨now, List.mem_of_getLast? hnow, hdate⟩
  · exact fun entry hentry date' ha => (hfollowed entry hentry date' ha).imp_right .inl

end DreamSound

/-- The readings of a log that goes on. -/
theorem Forward.left {log log' : List CronEntry} (h : Forward (log ++ log')) : Forward log := by
  rw [Forward, readings_append] at h
  exact (List.pairwise_append.mp h).1

/-- What was read since the last start was read before. -/
theorem Forward.le {log log' : List CronEntry} {now : DateTime} {state : CircuitState}
    (h : Forward (log ++ .dreamChecked now state :: log')) :
    ∀ r ∈ readings (sinceStart log), r.instant ≤ now.instant := by
  rw [Forward, readings_append] at h
  exact fun r hr => (List.pairwise_append.mp h).2.2 r ((readings_sinceStart log).subset hr) now
    List.mem_cons_self

theorem Forward.sinceStart {log : List CronEntry} (h : Forward log) :
    Forward (JanusGraph.sinceStart log) :=
  h.sublist (readings_sinceStart log).sublist

/-- The last reading is the latest. -/
theorem Forward.le_last {log : List CronEntry} (h : Forward log) {now last : DateTime}
    (hlast : (readings log).getLast? = some last) (hnow : now ∈ readings log) :
    now.instant ≤ last.instant := by
  obtain ⟨init, e, he⟩ := List.eq_nil_or_concat (readings log) |>.resolve_left
    (List.ne_nil_of_mem hnow)
  rw [List.concat_eq_append] at he
  rw [he, List.getLast?_concat] at hlast
  obtain rfl := Option.some.inj hlast
  rw [Forward, he] at h
  rw [he] at hnow
  rcases List.mem_append.mp hnow with hnow | hnow
  · exact (List.pairwise_append.mp h).2.2 now hnow e List.mem_cons_self
  · rw [List.mem_singleton.mp hnow]

/-! ## Turns -/

theorem CronRun.sound_dreamWakes {w : CronRun σ ρ} (h : DreamSound w.dream (sinceStart w.log))
    (now : DateTime) (hforward : Forward (w.dreamWakes now).log) :
    DreamSound (w.dreamWakes now).dream (sinceStart (w.dreamWakes now).log) := by
  rcases hdream : w.dream with _ | ⟨lastRunDate, _ | date⟩
  · simp only [dreamWakes, hdream]
    exact hdream ▸ h
  · rw [hdream] at h
    have hlast : lastRunDate = (completedDates (sinceStart w.log)).getLast? := h.last _ rfl
    simp only [dreamWakes, hdream, logged] at hforward ⊢
    split
    · next hdue =>
      rw [if_pos hdue] at hforward
      split
      · next hopen =>
        -- the breaker is open
        rw [sinceStart_append (by simp), sinceStart_append (by simp)]
        refine (h.checked ?_).other rfl rfl fun _ ha => ha
        rintro date ⟨-, -, hstate⟩
        refine absurd ?_ hstate
        revert hopen
        cases w.breaking.breaker.state <;> decide
      · next hopen =>
        rw [if_neg hopen, List.append_assoc] at hforward
        rw [sinceStart_append (by simp), sinceStart_append (by simp)]
        exact h.starts hforward.le hdue.1 hdue.2
    · next hdue =>
      rw [sinceStart_append (by simp)]
      refine h.checked ?_
      rintro date ⟨rfl, htime, -⟩
      have hremembered : lastRunDate = some now.date := by
        by_contra hne
        exact hdue ⟨htime, hne⟩
      exact List.mem_of_getLast? (hlast.symm.trans hremembered)
  · simp only [dreamWakes, hdream]
    exact hdream ▸ h

theorem CronRun.sound_dreamEnds {w : CronRun σ ρ} (h : DreamSound w.dream (sinceStart w.log))
    (outcome : Except String ρ) (time : ℚ) (now : DateTime) :
    DreamSound (w.dreamEnds outcome time now).dream
      (sinceStart (w.dreamEnds outcome time now).log) := by
  rcases hdream : w.dream with _ | ⟨lastRunDate, _ | date⟩
  · simp only [dreamEnds, hdream]
    exact hdream ▸ h
  · simp only [dreamEnds, hdream]
    exact hdream ▸ h
  · rw [hdream] at h
    rcases outcome with e | result <;> simp only [dreamEnds, hdream]
    · rw [sinceStart_append (by simp)]
      exact h.raised e
    · rw [sinceStart_append (by simp)]
      exact h.completed

theorem CronRun.sound_sweepWakes {w : CronRun σ ρ} (h : DreamSound w.dream (sinceStart w.log)) :
    DreamSound w.sweepWakes.dream (sinceStart w.sweepWakes.log) := by
  rw [sweepWakes]
  split
  · split
    · rw [sinceStart_append (by simp)]
      exact h.other rfl rfl fun _ ha => ha
    · exact h
  · exact h

theorem CronRun.sound_sweepEnds {w : CronRun σ ρ} (h : DreamSound w.dream (sinceStart w.log))
    (outcome : Except String σ) (time : ℚ) (now : DateTime) :
    DreamSound (w.sweepEnds outcome time now).dream
      (sinceStart (w.sweepEnds outcome time now).log) := by
  rw [sweepEnds]
  split
  · rcases outcome with e | stats <;> dsimp only [logged]
    · rw [sinceStart_append (by simp)]
      exact h.other rfl rfl fun _ ha => ha
    · rw [sinceStart_append (by simp)]
      exact h.other rfl rfl fun _ ha => ha
  · exact h

section

variable {settings : FalkorCircuitSettings} {clock : Clock} {hook : Option OnCircuitOpenedCallback}
  {cronEnabled : Bool}

/-- **Step**, since the last start: a start begins anew. -/
theorem CronRun.sound_turn {w : CronRun σ ρ} (h : DreamSound w.dream (sinceStart w.log))
    (t : CronTurn σ ρ) (hforward : Forward (w.turn settings clock hook cronEnabled t).log) :
    DreamSound (w.turn settings clock hook cronEnabled t).dream
      (sinceStart (w.turn settings clock hook cronEnabled t).log) := by
  cases t with
  | start =>
    rw [turn, start]
    split
    · exact h
    · split
      · exact h
      · dsimp only
        rw [sinceStart_started]
        exact .fresh
  | stop =>
    rw [turn, stop]
    split
    · exact h.cancelled
    · exact h
  | sweepWakes => exact sound_sweepWakes h
  | sweepEnds outcome time now => exact sound_sweepEnds h outcome time now
  | dreamWakes now => exact sound_dreamWakes h now hforward
  | dreamEnds outcome time now => exact sound_dreamEnds h outcome time now
  | breaker call => exact h

/-- A turn adds to the log. It completes the run that is under way, or completes none and starts
one only where its own check lets it. -/
theorem CronRun.turn_log (w : CronRun σ ρ) (t : CronTurn σ ρ) :
    (∃ lastRunDate date, w.dream = some ⟨lastRunDate, .under date⟩ ∧
        (w.turn settings clock hook cronEnabled t).log = w.log ++ [.dreamCompleted date]) ∨
      ∃ more, (w.turn settings clock hook cronEnabled t).log = w.log ++ more ∧
        completedDates more = [] ∧
        ∀ date, .dreamStarted date ∈ more → ∃ entry ∈ more, entry.Admits date := by
  have hsame : ∃ more, w.log = w.log ++ more ∧ completedDates more = [] ∧
      ∀ date, .dreamStarted date ∈ more → ∃ entry ∈ more, entry.Admits date :=
    ⟨[], (List.append_nil _).symm, rfl, fun _ h => by cases h⟩
  have hquiet : ∀ entry : CronEntry, completedDates [entry] = [] →
      (∀ date, entry ≠ .dreamStarted date) → ∃ more, w.log ++ [entry] = w.log ++ more ∧
        completedDates more = [] ∧
        ∀ date, .dreamStarted date ∈ more → ∃ entry ∈ more, entry.Admits date :=
    fun entry hdone hstarted => ⟨[entry], rfl, hdone, fun date h =>
      absurd (List.mem_singleton.mp h).symm (hstarted date)⟩
  cases t with
  | start =>
    rw [turn, start]
    split
    · exact .inr hsame
    · split
      · exact .inr hsame
      · exact .inr (hquiet _ rfl nofun)
  | stop =>
    rw [turn, stop]
    split <;> exact .inr hsame
  | sweepWakes =>
    rw [turn, sweepWakes]
    split
    · split
      · exact .inr (hquiet _ rfl nofun)
      · exact .inr hsame
    · exact .inr hsame
  | sweepEnds outcome time now =>
    rw [turn, sweepEnds]
    split
    · rcases outcome with e | stats <;> exact .inr (hquiet _ rfl nofun)
    · exact .inr hsame
  | dreamWakes now =>
    rw [turn, dreamWakes]
    split
    · dsimp only [logged]
      split
      · next hdue =>
        split
        · exact .inr ⟨_, List.append_assoc _ _ _, rfl, by simp⟩
        · next hopen =>
          have hstate : w.breaking.breaker.state ≠ .opened := fun hstate =>
            hopen (by rw [hstate]; rfl)
          refine .inr ⟨_, List.append_assoc _ _ _, rfl, fun date hdate => ?_⟩
          simp only [List.cons_append, List.nil_append, List.mem_cons, reduceCtorEq,
            CronEntry.dreamStarted.injEq, List.not_mem_nil, or_false, false_or] at hdate
          exact ⟨_, List.mem_cons_self, hdate.symm, hdue.1, hstate⟩
      · exact .inr (hquiet _ rfl nofun)
    · exact .inr hsame
  | dreamEnds outcome time now =>
    rw [turn, dreamEnds]
    split
    · next lastRunDate date hdream =>
      rcases outcome with e | result
      · exact .inr (hquiet _ rfl nofun)
      · exact .inl ⟨lastRunDate, date, hdream, rfl⟩
    · exact .inr hsame
  | breaker call => exact .inr hsame

end

/-! ## All the time -/

namespace DreamHistory

variable {log more : List CronEntry} {lastRunDate : Option Date} {date : Date}

theorem nil : DreamHistory [] where
  read _ hd := by cases hd
  started _ hstarted := by cases hstarted
  order _ _ _ _ _ hi := by cases hi

/-- Entries that complete no run. -/
theorem append (h : DreamHistory log) (hdone : completedDates more = [])
    (hstarted : ∀ date, .dreamStarted date ∈ more → ∃ entry ∈ more, entry.Admits date) :
    DreamHistory (log ++ more) where
  read d hd := by
    rw [completedDates_append, hdone, List.append_nil] at hd
    obtain ⟨now, hnow, hdate⟩ := h.read d hd
    exact ⟨now, by simp [hnow], hdate⟩
  started date hdate := by
    rcases List.mem_append.mp hdate with hdate | hdate
    · obtain ⟨entry, hentry, ha⟩ := h.started date hdate
      exact ⟨entry, List.mem_append_left _ hentry, ha⟩
    · obtain ⟨entry, hentry, ha⟩ := hstarted date hdate
      exact ⟨entry, List.mem_append_right _ hentry, ha⟩
  order i j d e hij hi hj := by
    have hlog : j < log.length := by
      by_contra hout
      rw [List.getElem?_append_right (by omega)] at hj
      have hmem : e ∈ completedDates more := mem_completedDates.mpr (List.mem_of_getElem? hj)
      rw [hdone] at hmem
      cases hmem
    rw [List.getElem?_append_left (hij.trans hlog)] at hi
    rw [List.getElem?_append_left hlog] at hj
    refine (h.order i j d e hij hi hj).imp_right (And.imp_right fun ⟨k, hik, hkj, hk⟩ => ?_)
    exact ⟨k, hik, hkj, by rwa [List.getElem?_append_left (hkj.trans hlog)]⟩

/-- The run under way has returned. One of the same date before it belongs to another start, for
the task would have remembered its own. -/
theorem completed (h : DreamHistory log) (hforward : Forward log)
    (hsound : DreamSound (some ⟨lastRunDate, .under date⟩) (sinceStart log)) :
    DreamHistory (log ++ [.dreamCompleted date]) := by
  obtain ⟨hafter, now, hnow, hdate, -⟩ := hsound.under _ date rfl rfl
  have hlast : (readings log).getLast? = some now := by
    obtain ⟨before, hbefore⟩ := readings_sinceStart log
    rw [← hbefore, List.getLast?_append, hnow, Option.some_or]
  have hc : completedDates (log ++ [.dreamCompleted date]) = completedDates log ++ [date] :=
    completedDates_append _ _
  have hr : readings (log ++ [.dreamCompleted date]) = readings log := by simp [readings]
  refine ⟨fun d hd => ?_, fun d hd => ?_, fun i j d e hij hi hj => ?_⟩
  · rw [hr]
    rcases List.mem_append.mp (hc ▸ hd) with hd | hd
    · exact h.read d hd
    · obtain rfl := List.mem_singleton.mp hd
      exact ⟨now, List.mem_of_getLast? hlast, hdate⟩
  · rcases List.mem_append.mp hd with hd | hd
    · obtain ⟨entry, hentry, ha⟩ := h.started d hd
      exact ⟨entry, List.mem_append_left _ hentry, ha⟩
    · cases List.mem_singleton.mp hd
  · have hj' : j < (log ++ [CronEntry.dreamCompleted date]).length :=
      (List.getElem?_eq_some_iff.mp hj).1
    rw [List.length_append, List.length_singleton] at hj'
    have hlog : i < log.length := by omega
    rw [List.getElem?_append_left hlog] at hi
    rcases Nat.lt_succ_iff_lt_or_eq.mp hj' with hj' | rfl
    · rw [List.getElem?_append_left hj'] at hj
      refine (h.order i j d e hij hi hj).imp_right (And.imp_right fun ⟨k, hik, hkj, hk⟩ => ?_)
      exact ⟨k, hik, hkj, by rwa [List.getElem?_append_left (hkj.trans hj')]⟩
    · obtain rfl := CronEntry.dreamCompleted.inj
        (Option.some.inj (List.getElem?_concat_length.symm.trans hj))
      by_cases hstart : ∃ k, i < k ∧ log[k]? = some .started
      · -- the dates do not go back, as the clock does not
        obtain ⟨k, hik, hk⟩ := hstart
        have hklog : k < log.length := (List.getElem?_eq_some_iff.mp hk).1
        obtain ⟨r, hr, rfl⟩ := h.read d (mem_completedDates.mpr (List.mem_of_getElem? hi))
        have hle : r.date.ordinal ≤ now.date.ordinal :=
          DateTime.ordinal_le (hforward.le_last hlast hr)
        rw [hdate] at hle
        refine hle.lt_or_eq.imp_right fun heq => ⟨Date.ordinal_injective heq, k, hik, hklog, ?_⟩
        rwa [List.getElem?_append_left hklog]
      · refine .inl (hafter d (mem_completedDates.mpr (mem_sinceStart hi nofun fun k hik hk => ?_)))
        exact hstart ⟨k, hik, hk⟩

end DreamHistory

/-- **Run.** -/
theorem CronRun.sound_run {settings : FalkorCircuitSettings} {clock : Clock}
    {hook : Option OnCircuitOpenedCallback} {cronEnabled : Bool} (turns : List (CronTurn σ ρ))
    (hforward : Forward (run settings clock hook cronEnabled turns).log) :
    DreamSound (run settings clock hook cronEnabled turns).dream
        (sinceStart (run settings clock hook cronEnabled turns).log) ∧
      DreamHistory (run settings clock hook cronEnabled turns).log := by
  induction turns using List.reverseRecOn with
  | nil => exact ⟨DreamSound.fresh.cancelled, .nil⟩
  | append_singleton turns t ih =>
    rw [run, List.foldl_append, List.foldl_cons, List.foldl_nil, ← run] at hforward ⊢
    rcases turn_log (run settings clock hook cronEnabled turns) t with
      ⟨lastRunDate, date, hdream, hlog⟩ | ⟨more, hlog, hdone, hstarted⟩
    · have hbefore := (hlog ▸ hforward).left
      obtain ⟨hsound, hhistory⟩ := ih hbefore
      refine ⟨sound_turn hsound t hforward, hlog ▸ ?_⟩
      exact hhistory.completed hbefore (hdream ▸ hsound)
    · obtain ⟨hsound, hhistory⟩ := ih (hlog ▸ hforward).left
      exact ⟨sound_turn hsound t hforward, hlog ▸ hhistory.append hdone hstarted⟩

end JanusGraph
