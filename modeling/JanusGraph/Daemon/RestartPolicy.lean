import JanusGraph.Daemon.Breaker
import Mathlib.Data.List.TakeWhile

/-!
# The restart policy

`FalkorRestartPolicy` of `daemon/falkordb_restart_policy.py`: how often FalkorDB is
restarted. What `manager.start()` comes to, and how long it takes, is up to the run. The
calls come one after another, so none of them finds another one's restart in flight.
-/

namespace JanusGraph

/-- `FalkorRestartPolicySettings` -/
structure FalkorRestartPolicySettings : Type where
  cooldownSec : ℤ := 60
  maxPerHour : ℤ := 5

/-- `RestartPolicyState` -/
inductive RestartPolicyState : Type where
  | ok | coolingDown | budgetExhausted | fatalDegraded
  deriving DecidableEq

/-- `RestartPolicySnapshot` -/
structure RestartPolicySnapshot : Type where
  state : RestartPolicyState
  restartsInWindow : ℕ
  maxPerHour : ℤ
  secondsSinceLastRestart : Option ℚ
  cooldownSec : ℤ
  lastRestartAt : Option ℚ

/-- The fields of `FalkorRestartPolicy`. -/
structure FalkorRestartPolicy : Type where
  /-- whether a manager is bound -/
  manager : Bool
  /-- whether there is an `on_budget_exhausted` -/
  onBudgetExhausted : Bool
  /-- `_restart_times`, oldest first -/
  restartTimes : List ℚ := []
  lastRestartAt : Option ℚ := none
  state : RestartPolicyState := .ok
  disabledByOperator : Bool := false

/-- What a call of `manager.start()` comes to. -/
inductive StartOutcome : Type where
  | returned (ok : Bool)
  | raised

/-- A completed restart: from when to when `manager.start()` ran, and the time that was
written down for it. -/
structure Restart : Type where
  began : ℚ
  ended : ℚ
  stamp : ℚ

/-- A policy at work. -/
structure Restarting : Type where
  policy : FalkorRestartPolicy
  /-- how often the clock has been read -/
  ticks : ℕ
  /-- the completed restarts, newest first -/
  restarts : List Restart
  /-- the calls of `on_budget_exhausted` -/
  exhausted : List RestartPolicySnapshot

section

variable (settings : FalkorRestartPolicySettings) (clock : Clock)

/-- `_prune_window` -/
def Restarting.pruneWindow (w : Restarting) : Restarting :=
  let oneHourAgo := clock.now w.ticks - 3600
  { w with
    policy := { w.policy with
      restartTimes := w.policy.restartTimes.dropWhile fun t => t < oneHourAgo }
    ticks := w.ticks + 1 }

/-- `snapshot` -/
def Restarting.snapshot (w : Restarting) : RestartPolicySnapshot × Restarting :=
  let w := w.pruneWindow clock
  ({ state := w.policy.state
     restartsInWindow := w.policy.restartTimes.length
     maxPerHour := settings.maxPerHour
     secondsSinceLastRestart := w.policy.lastRestartAt.map fun t => clock.now w.ticks - t
     cooldownSec := settings.cooldownSec
     lastRestartAt := w.policy.lastRestartAt },
    { w with ticks := w.ticks + 1 })

/-- `can_restart` -/
def Restarting.canRestart (w : Restarting) : Bool × Restarting :=
  if w.policy.state = .fatalDegraded then (false, w)
  else if w.policy.state = .budgetExhausted then (false, w)
  else
    let w := w.pruneWindow clock
    if settings.maxPerHour ≤ w.policy.restartTimes.length then (false, w)
    else
      match w.policy.lastRestartAt with
      | none => (true, w)
      | some t =>
        (!(clock.now w.ticks - t < settings.cooldownSec : Bool), { w with ticks := w.ticks + 1 })

/-- `_enter_fatal_degraded`; what the callback raises is logged. -/
def Restarting.enterFatalDegraded (w : Restarting) : Restarting :=
  if w.policy.state = .fatalDegraded then w
  else
    let w := { w with policy := { w.policy with state := .fatalDegraded } }
    let (snap, w) := w.snapshot settings clock
    if w.policy.onBudgetExhausted then { w with exhausted := w.exhausted ++ [snap] } else w

/-- The part of `_attempt_restart_locked` after its gates. -/
def Restarting.execute (w : Restarting) : StartOutcome → Bool × Restarting
  | .raised => (false, w.enterFatalDegraded settings clock)
  | .returned ok =>
    -- when the call begins and returns, the clock is only looked at
    let began := clock.now w.ticks
    let ended := clock.now (w.ticks + 1)
    let now := clock.now (w.ticks + 2)
    (ok,
      { w with
        policy := { w.policy with
          restartTimes := w.policy.restartTimes ++ [now]
          lastRestartAt := some now
          state := .ok }
        ticks := w.ticks + 3
        restarts := ⟨began, ended, now⟩ :: w.restarts })

/-- The gates of `_attempt_restart_locked` after the one of the cooldown. -/
def Restarting.attemptCooled (w : Restarting) (outcome : StartOutcome) : Bool × Restarting :=
  if settings.maxPerHour ≤ w.policy.restartTimes.length then
    (false, w.enterFatalDegraded settings clock)
  else if !w.policy.manager then (false, w)
  else w.execute settings clock outcome

/-- `_attempt_restart_locked` -/
def Restarting.attemptRestartLocked (w : Restarting) (outcome : StartOutcome) :
    Bool × Restarting :=
  let w := w.pruneWindow clock
  match w.policy.lastRestartAt with
  | none => w.attemptCooled settings clock outcome
  | some t =>
    let elapsed := clock.now w.ticks - t
    let w := { w with ticks := w.ticks + 1 }
    if elapsed < settings.cooldownSec then
      (false, { w with policy := { w.policy with state := .coolingDown } })
    else w.attemptCooled settings clock outcome

/-- `attempt_restart` -/
def Restarting.attemptRestart (w : Restarting) (outcome : StartOutcome) : Bool × Restarting :=
  if w.policy.disabledByOperator then (false, w)
  else if w.policy.state = .fatalDegraded then (false, w)
  else w.attemptRestartLocked settings clock outcome

/-- `on_circuit_opened`, with a manager or without one -/
def Restarting.onCircuitOpened (w : Restarting) (manager : Bool) (outcome : StartOutcome) :
    Restarting :=
  let w :=
    if manager then { w with policy := { w.policy with manager := true } } else w
  (w.attemptRestart settings clock outcome).2

/-- `disable` -/
def Restarting.disable (w : Restarting) : Restarting :=
  { w with policy := { w.policy with disabledByOperator := true } }

/-- The calls, with what `manager.start()` comes to if they get that far. -/
inductive PolicyCall : Type where
  | attemptRestart (outcome : StartOutcome)
  | onCircuitOpened (manager : Bool) (outcome : StartOutcome)
  | disable | canRestart | snapshot

/-- One call. -/
def Restarting.call (w : Restarting) : PolicyCall → Restarting
  | .attemptRestart outcome => (w.attemptRestart settings clock outcome).2
  | .onCircuitOpened manager outcome => w.onCircuitOpened settings clock manager outcome
  | .disable => w.disable
  | .canRestart => (w.canRestart settings clock).2
  | .snapshot => (w.snapshot settings clock).2

/-- A run of calls on a new policy. -/
def Restarting.run (policy : FalkorRestartPolicy) (calls : List PolicyCall) : Restarting :=
  calls.foldl (Restarting.call settings clock) ⟨policy, 0, [], []⟩

end

/-! ## What the policy keeps -/

/-- The restarts, newest first: each came after the cooldown of those before it, and was one
of at most `max_per_hour` in the hour before it began. -/
def Paced (settings : FalkorRestartPolicySettings) : List Restart → Prop
  | [] => True
  | r :: older => Paced settings older ∧ r.began ≤ r.ended ∧ r.ended ≤ r.stamp ∧
    (∀ r' ∈ older, r'.stamp ≤ r.stamp ∧ r'.stamp + settings.cooldownSec ≤ r.began) ∧
    ((older.countP fun r' => r.began - 3600 ≤ r'.stamp) : ℤ) + 1 ≤ settings.maxPerHour

/-- What the fields say about the restarts so far. -/
structure Restarting.Tracks (settings : FalkorRestartPolicySettings) (clock : Clock)
    (w : Restarting) : Prop where
  paced : Paced settings w.restarts
  past : ∀ r ∈ w.restarts, r.stamp ≤ clock.now w.ticks
  last : w.policy.lastRestartAt = w.restarts.head?.map Restart.stamp
  /-- only what is older than an hour has left the window -/
  window : ∃ gone, w.restarts.map Restart.stamp = w.policy.restartTimes.reverse ++ gone ∧
    ∀ t ∈ gone, t < clock.now w.ticks - 3600

section

variable {settings : FalkorRestartPolicySettings} {clock : Clock} {w : Restarting}

/-- The restarts do not depend on the time that passes. -/
theorem Restarting.Tracks.of_fields (h : w.Tracks settings clock) {w' : Restarting}
    (hrestarts : w'.restarts = w.restarts)
    (htimes : w'.policy.restartTimes = w.policy.restartTimes)
    (hlast : w'.policy.lastRestartAt = w.policy.lastRestartAt) (hticks : w.ticks ≤ w'.ticks) :
    w'.Tracks settings clock where
  paced := hrestarts ▸ h.paced
  past r hr := (h.past r (hrestarts ▸ hr)).trans (clock.mono hticks)
  last := by rw [hlast, hrestarts, h.last]
  window := by
    obtain ⟨gone, hgone, hold⟩ := h.window
    refine ⟨gone, by rw [hrestarts, htimes, hgone], fun t ht => ?_⟩
    exact (hold t ht).trans_le (sub_le_sub_right (clock.mono hticks) _)

theorem Restarting.Tracks.pruneWindow (h : w.Tracks settings clock) :
    (w.pruneWindow clock).Tracks settings clock where
  paced := h.paced
  past r hr := (h.past r hr).trans (clock.mono (Nat.le_succ _))
  last := h.last
  window := by
    obtain ⟨gone, hgone, hold⟩ := h.window
    have hlater : clock.now w.ticks - 3600 ≤ clock.now (w.ticks + 1) - 3600 :=
      sub_le_sub_right (clock.mono (Nat.le_succ _)) _
    refine ⟨(w.policy.restartTimes.takeWhile fun t =>
      t < clock.now w.ticks - 3600).reverse ++ gone, ?_, fun t ht => ?_⟩
    · rw [← List.append_assoc, Restarting.pruneWindow, ← List.reverse_append,
        List.takeWhile_append_dropWhile]
      exact hgone
    · rcases List.mem_append.mp ht with ht | ht
      · have hlt := List.mem_takeWhile_imp (List.mem_reverse.mp ht)
        exact (of_decide_eq_true hlt).trans_le hlater
      · exact (hold t ht).trans_le hlater

theorem Restarting.Tracks.snapshot (h : w.Tracks settings clock) :
    (w.snapshot settings clock).2.Tracks settings clock :=
  h.pruneWindow.of_fields rfl rfl rfl (Nat.le_succ _)

theorem Restarting.Tracks.canRestart (h : w.Tracks settings clock) :
    (w.canRestart settings clock).2.Tracks settings clock := by
  rw [Restarting.canRestart]
  split
  · exact h
  · split
    · exact h
    · dsimp only
      split
      · exact h.pruneWindow
      · split
        · exact h.pruneWindow
        · exact h.pruneWindow.of_fields rfl rfl rfl (Nat.le_succ _)

theorem Restarting.Tracks.enterFatalDegraded (h : w.Tracks settings clock) :
    (w.enterFatalDegraded settings clock).Tracks settings clock := by
  rw [Restarting.enterFatalDegraded]
  split
  · exact h
  · have hstate : ({ w with policy := { w.policy with state := .fatalDegraded } } :
        Restarting).Tracks settings clock := h.of_fields rfl rfl rfl (le_refl _)
    dsimp only
    split
    · exact hstate.snapshot.of_fields rfl rfl rfl (le_refl _)
    · exact hstate.snapshot

/-- The newest restart was written down last. -/
theorem Restarting.Tracks.stamp_le_last (h : w.Tracks settings clock) {r : Restart}
    (hr : r ∈ w.restarts) : ∃ t, w.policy.lastRestartAt = some t ∧ r.stamp ≤ t := by
  have hpaced := h.paced
  rcases hlog : w.restarts with _ | ⟨newest, older⟩
  · rw [hlog] at hr
    cases hr
  · rw [hlog] at hr hpaced
    refine ⟨newest.stamp, by rw [h.last, hlog]; rfl, ?_⟩
    rcases List.mem_cons.mp hr with rfl | hr
    · exact le_refl _
    · exact (hpaced.2.2.2.1 r hr).1

/-- What happened in the hour before is in the window. -/
theorem Restarting.Tracks.countP_le (h : w.Tracks settings clock) :
    (w.restarts.countP fun r => clock.now w.ticks - 3600 ≤ r.stamp) ≤
      w.policy.restartTimes.length := by
  obtain ⟨gone, hgone, hold⟩ := h.window
  have hmap : (w.restarts.countP fun r => clock.now w.ticks - 3600 ≤ r.stamp) =
      (w.restarts.map Restart.stamp).countP fun t => clock.now w.ticks - 3600 ≤ t := by
    rw [List.countP_map]
    rfl
  have hnone : (gone.countP fun t => clock.now w.ticks - 3600 ≤ t) = 0 := by
    rw [List.countP_eq_zero]
    intro t ht
    rw [decide_eq_true_eq, not_le]
    exact hold t ht
  rw [hmap, hgone, List.countP_append, hnone, Nat.add_zero]
  exact List.countP_le_length.trans_eq List.length_reverse

/-- A restart within the budget and after the cooldown. -/
theorem Restarting.Tracks.execute (h : w.Tracks settings clock)
    (hbudget : (w.policy.restartTimes.length : ℤ) < settings.maxPerHour)
    (hcooled : ∀ t, w.policy.lastRestartAt = some t →
      t + settings.cooldownSec ≤ clock.now w.ticks) (outcome : StartOutcome) :
    (w.execute settings clock outcome).2.Tracks settings clock := by
  cases outcome with
  | raised => exact h.enterFatalDegraded
  | returned ok =>
    have hend : clock.now w.ticks ≤ clock.now (w.ticks + 2) := clock.mono (by omega)
    have hnext : clock.now (w.ticks + 2) ≤ clock.now (w.ticks + 3) := clock.mono (by omega)
    refine ⟨⟨h.paced, clock.mono (by omega), clock.mono (by omega), fun r hr => ?_, ?_⟩,
      fun r hr => ?_, rfl, ?_⟩
    · obtain ⟨t, ht, hle⟩ := h.stamp_le_last hr
      exact ⟨(h.past r hr).trans hend, (add_le_add_left hle _).trans (hcooled t ht)⟩
    · have hcount := h.countP_le
      dsimp only
      omega
    · rcases List.mem_cons.mp hr with rfl | hr
      · exact hnext
      · exact ((h.past r hr).trans hend).trans hnext
    · obtain ⟨gone, hgone, hold⟩ := h.window
      refine ⟨gone, ?_, fun t ht => (hold t ht).trans_le ?_⟩
      · change clock.now (w.ticks + 2) :: w.restarts.map Restart.stamp = _
        rw [hgone]
        simp [Restarting.execute]
      · exact sub_le_sub_right (hend.trans hnext) _

theorem Restarting.Tracks.attemptCooled (h : w.Tracks settings clock)
    (hcooled : ∀ t, w.policy.lastRestartAt = some t →
      t + settings.cooldownSec ≤ clock.now w.ticks) (outcome : StartOutcome) :
    (w.attemptCooled settings clock outcome).2.Tracks settings clock := by
  rw [Restarting.attemptCooled]
  split
  · exact h.enterFatalDegraded
  · next hbudget =>
    split
    · exact h
    · exact h.execute (not_le.mp hbudget) hcooled outcome

theorem Restarting.Tracks.attemptRestart (h : w.Tracks settings clock) (outcome : StartOutcome) :
    (w.attemptRestart settings clock outcome).2.Tracks settings clock := by
  rw [Restarting.attemptRestart]
  split
  · exact h
  · split
    · exact h
    · rw [Restarting.attemptRestartLocked]
      dsimp only
      split
      · next hnone =>
        refine h.pruneWindow.attemptCooled (fun t ht => ?_) outcome
        rw [hnone] at ht
        cases ht
      · next last hlast =>
        have hread : ({ w.pruneWindow clock with ticks := (w.pruneWindow clock).ticks + 1 } :
            Restarting).Tracks settings clock :=
          h.pruneWindow.of_fields rfl rfl rfl (Nat.le_succ _)
        split
        · exact hread.of_fields rfl rfl rfl (le_refl _)
        · next helapsed =>
          refine hread.attemptCooled (fun t ht => ?_) outcome
          obtain rfl := Option.some.inj (hlast.symm.trans ht)
          have hlater : clock.now (w.pruneWindow clock).ticks ≤
              clock.now ((w.pruneWindow clock).ticks + 1) := clock.mono (Nat.le_succ _)
          have hcool := not_lt.mp helapsed
          dsimp only
          linarith

/-- Every call keeps track. -/
theorem Restarting.Tracks.call (h : w.Tracks settings clock) (c : PolicyCall) :
    (w.call settings clock c).Tracks settings clock := by
  cases c with
  | attemptRestart outcome => exact h.attemptRestart outcome
  | onCircuitOpened manager outcome =>
    rw [Restarting.call, Restarting.onCircuitOpened]
    refine Restarting.Tracks.attemptRestart ?_ outcome
    split
    · exact h.of_fields rfl rfl rfl (le_refl _)
    · exact h
  | disable => exact h.of_fields rfl rfl rfl (le_refl _)
  | canRestart => exact h.canRestart
  | snapshot => exact h.snapshot

/-! ## What the policy refuses -/

/-- What one step may do to the outcome so far. -/
structure Restarting.Follows (w w' : Restarting) : Prop where
  disabled : w.policy.disabledByOperator = true →
    w'.policy.disabledByOperator = true ∧ w'.restarts = w.restarts
  fatal : w.policy.state = .fatalDegraded →
    w'.policy.state = .fatalDegraded ∧ w'.restarts = w.restarts ∧ w'.exhausted = w.exhausted
  alive : w'.policy.state ≠ .fatalDegraded → w'.exhausted = w.exhausted
  once : w'.exhausted.length ≤ w.exhausted.length + 1

theorem Restarting.Follows.of_fields {w' : Restarting}
    (hdisabled : w'.policy.disabledByOperator = w.policy.disabledByOperator)
    (hstate : w'.policy.state = w.policy.state) (hrestarts : w'.restarts = w.restarts)
    (hexhausted : w'.exhausted = w.exhausted) : w.Follows w' where
  disabled h := ⟨hdisabled.trans h, hrestarts⟩
  fatal h := ⟨hstate.trans h, hrestarts, hexhausted⟩
  alive _ := hexhausted
  once := by rw [hexhausted]; exact Nat.le_succ _

/-- `FATAL_DEGRADED` is entered, and reported once. -/
theorem Restarting.enterFatalDegraded_spec (w : Restarting) :
    (w.enterFatalDegraded settings clock).policy.state = .fatalDegraded ∧
      (w.enterFatalDegraded settings clock).exhausted.length ≤ w.exhausted.length + 1 := by
  rw [enterFatalDegraded]
  split
  · next hfatal => exact ⟨hfatal, Nat.le_succ _⟩
  · dsimp only
    split
    · exact ⟨rfl, by simp [snapshot, pruneWindow]⟩
    · exact ⟨rfl, Nat.le_succ _⟩

/-- An attempt reports its exhaustion only in `FATAL_DEGRADED`. -/
theorem Restarting.exhausted_attemptCooled (w : Restarting) (outcome : StartOutcome) :
    ((w.attemptCooled settings clock outcome).2.policy.state ≠ .fatalDegraded →
        (w.attemptCooled settings clock outcome).2.exhausted = w.exhausted) ∧
      (w.attemptCooled settings clock outcome).2.exhausted.length ≤ w.exhausted.length + 1 := by
  obtain ⟨hfatal, honce⟩ := @enterFatalDegraded_spec settings clock w
  rw [attemptCooled]
  split
  · exact ⟨fun hne => absurd hfatal hne, honce⟩
  · split
    · exact ⟨fun _ => rfl, Nat.le_succ _⟩
    · cases outcome with
      | raised => exact ⟨fun hne => absurd hfatal hne, honce⟩
      | returned ok => exact ⟨fun _ => rfl, Nat.le_succ _⟩

theorem Restarting.follows_attemptRestart (w : Restarting) (outcome : StartOutcome) :
    w.Follows (w.attemptRestart settings clock outcome).2 := by
  rw [attemptRestart]
  split
  · exact .of_fields rfl rfl rfl rfl
  · next henabled =>
    split
    · exact .of_fields rfl rfl rfl rfl
    · next hrunning =>
      rw [attemptRestartLocked]
      dsimp only
      have hcooled : ∀ w' : Restarting, w'.exhausted = w.exhausted →
          w.Follows (w'.attemptCooled settings clock outcome).2 := by
        intro w' hw'
        obtain ⟨halive, honce⟩ := @exhausted_attemptCooled settings clock w' outcome
        rw [hw'] at halive honce
        exact ⟨fun h => absurd h henabled, fun h => absurd h hrunning, halive, honce⟩
      split
      · exact hcooled _ rfl
      · split
        · exact ⟨fun h => absurd h henabled, fun h => absurd h hrunning, fun _ => rfl,
            Nat.le_succ _⟩
        · exact hcooled _ rfl

/-- Every call follows. -/
theorem Restarting.follows_call (w : Restarting) (c : PolicyCall) :
    w.Follows (w.call settings clock c) := by
  cases c with
  | attemptRestart outcome => exact w.follows_attemptRestart outcome
  | onCircuitOpened manager outcome =>
    rw [call, onCircuitOpened]
    dsimp only
    split
    · obtain ⟨hdisabled, hfatal, halive, honce⟩ := @follows_attemptRestart settings clock
        { w with policy := { w.policy with manager := true } } outcome
      exact ⟨hdisabled, hfatal, halive, honce⟩
    · exact w.follows_attemptRestart outcome
  | disable => exact ⟨fun _ => ⟨rfl, rfl⟩, fun h => ⟨h, rfl, rfl⟩, fun _ => rfl, Nat.le_succ _⟩
  | canRestart =>
    rw [call, canRestart]
    split
    · exact .of_fields rfl rfl rfl rfl
    · split
      · exact .of_fields rfl rfl rfl rfl
      · dsimp only
        split
        · exact .of_fields rfl rfl rfl rfl
        · split
          · exact .of_fields rfl rfl rfl rfl
          · exact .of_fields rfl rfl rfl rfl
  | snapshot => exact .of_fields rfl rfl rfl rfl

/-! ## Runs -/

theorem Restarting.run_append (policy : FalkorRestartPolicy) (calls more : List PolicyCall) :
    run settings clock policy (calls ++ more) =
      more.foldl (call settings clock) (run settings clock policy calls) :=
  List.foldl_append ..

/-- After `disable()`, or in `FATAL_DEGRADED`, nothing is restarted, and `FATAL_DEGRADED` is
not left. -/
theorem Restarting.refused (more : List PolicyCall) (w : Restarting) :
    (w.policy.disabledByOperator = true →
        (more.foldl (call settings clock) w).restarts = w.restarts) ∧
      (w.policy.state = .fatalDegraded →
        (more.foldl (call settings clock) w).restarts = w.restarts ∧
          (more.foldl (call settings clock) w).policy.state = .fatalDegraded) := by
  induction more generalizing w with
  | nil => exact ⟨fun _ => rfl, fun h => ⟨rfl, h⟩⟩
  | cons c more ih =>
    have hfollows := @follows_call settings clock w c
    obtain ⟨hdisabled, hfatal⟩ := ih (w.call settings clock c)
    refine ⟨fun h => ?_, fun h => ?_⟩
    · obtain ⟨hstays, hsame⟩ := hfollows.disabled h
      exact (hdisabled hstays).trans hsame
    · obtain ⟨hstays, hsame, -⟩ := hfollows.fatal h
      exact ⟨(hfatal hstays).1.trans hsame, (hfatal hstays).2⟩

/-- A policy on which `disable()` has been called is disabled. -/
theorem Restarting.disabled_of_mem {calls : List PolicyCall} (h : .disable ∈ calls)
    (w : Restarting) :
    (calls.foldl (call settings clock) w).policy.disabledByOperator = true := by
  have hstays : ∀ (calls : List PolicyCall) (w : Restarting),
      w.policy.disabledByOperator = true →
        (calls.foldl (call settings clock) w).policy.disabledByOperator = true := by
    intro calls
    induction calls with
    | nil => exact fun _ => id
    | cons c calls ih => exact fun w hw => ih _ ((w.follows_call c).disabled hw).1
  obtain ⟨before, after, rfl⟩ := List.append_of_mem h
  rw [List.foldl_append, List.foldl_cons]
  exact hstays after _ rfl

/-- Any part of the restart lies in the closed hour from `a` on. -/
def Restart.within (a : ℚ) (r : Restart) : Bool := r.began ≤ a + 3600 ∧ a ≤ r.ended

theorem Paced.ended_le_stamp {restarts : List Restart} (h : Paced settings restarts) {r : Restart}
    (hr : r ∈ restarts) : r.ended ≤ r.stamp := by
  induction restarts with
  | nil => cases hr
  | cons newest older ih =>
    rcases List.mem_cons.mp hr with rfl | hr
    · exact h.2.2.1
    · exact ih h.1 hr

/-- At most `max_per_hour` paced restarts touch an hour. -/
theorem Paced.countP_within {restarts : List Restart} (h : Paced settings restarts) (a : ℚ) :
    ((restarts.countP (Restart.within a) : ℕ) : ℤ) ≤ max settings.maxPerHour 0 := by
  induction restarts with
  | nil => exact le_max_right _ _
  | cons r older ih =>
    obtain ⟨hpaced, hspan, hstamp, holder, hbudget⟩ := h
    rw [List.countP_cons]
    split
    · next hwithin =>
      obtain ⟨hbegan, hended⟩ := of_decide_eq_true hwithin
      -- those that also touch the hour were written down in the hour before this one began
      have hcount : older.countP (Restart.within a) ≤
          older.countP fun r' => r.began - 3600 ≤ r'.stamp := by
        refine List.countP_mono_left fun r' hr' hwithin' => decide_eq_true ?_
        obtain ⟨-, hended'⟩ := of_decide_eq_true hwithin'
        have hstamp' := hpaced.ended_le_stamp hr'
        linarith
      have hmax := le_max_left settings.maxPerHour 0
      omega
    · exact ih hpaced

/-- Between two paced restarts the cooldown has passed. -/
theorem Paced.cooled {restarts : List Restart} (h : Paced settings restarts) :
    restarts.Pairwise fun later earlier : Restart =>
      earlier.ended + settings.cooldownSec ≤ later.began := by
  induction restarts with
  | nil => exact List.Pairwise.nil
  | cons r older ih =>
    refine List.pairwise_cons.mpr ⟨fun r' hr' => ?_, ih h.1⟩
    exact (add_le_add_left (h.1.ended_le_stamp hr') _).trans (h.2.2.2.1 r' hr').2

theorem Restarting.tracks_run (policy : FalkorRestartPolicy) (htimes : policy.restartTimes = [])
    (hlast : policy.lastRestartAt = none) (calls : List PolicyCall) :
    (run settings clock policy calls).Tracks settings clock := by
  have hkept : ∀ (calls : List PolicyCall) (w : Restarting), w.Tracks settings clock →
      (calls.foldl (call settings clock) w).Tracks settings clock := by
    intro calls
    induction calls with
    | nil => exact fun _ => id
    | cons c calls ih => exact fun w hw => ih _ (hw.call c)
  refine hkept calls _ ⟨trivial, by simp, hlast, [], ?_, by simp⟩
  simp [htimes]

theorem Restarting.exhausted_run (policy : FalkorRestartPolicy) (calls : List PolicyCall) :
    (run settings clock policy calls).exhausted.length ≤
      if (run settings clock policy calls).policy.state = .fatalDegraded then 1 else 0 := by
  have hkept : ∀ (calls : List PolicyCall) (w : Restarting),
      (w.exhausted.length ≤ if w.policy.state = .fatalDegraded then 1 else 0) →
      (calls.foldl (call settings clock) w).exhausted.length ≤
        if (calls.foldl (call settings clock) w).policy.state = .fatalDegraded then 1 else 0 := by
    intro calls
    induction calls with
    | nil => exact fun _ => id
    | cons c calls ih =>
      intro w hw
      refine ih _ ?_
      have hfollows := @follows_call settings clock w c
      by_cases hfatal : w.policy.state = .fatalDegraded
      · obtain ⟨hstays, -, hsame⟩ := hfollows.fatal hfatal
        rw [if_pos hfatal] at hw
        rwa [if_pos hstays, hsame]
      · rw [if_neg hfatal] at hw
        split
        · exact hfollows.once.trans (Nat.succ_le_succ hw)
        · next halive => rwa [hfollows.alive halive]
  exact hkept calls _ (Nat.zero_le _)

end

/-- **Restarts are bounded**, over any run: at most `max_per_hour` touch any closed hour; the
cooldown passes between two of them; there is none after `disable()` or in
`FATAL_DEGRADED`, which is never left; and `on_budget_exhausted` fires at most once. -/
theorem bounded_restarts (settings : FalkorRestartPolicySettings) (clock : Clock)
    (manager onBudgetExhausted : Bool) (calls : List PolicyCall) :
    (∀ a, (((Restarting.run settings clock { manager, onBudgetExhausted } calls).restarts.countP
        (Restart.within a) : ℕ) : ℤ) ≤ max settings.maxPerHour 0) ∧
      (Restarting.run settings clock { manager, onBudgetExhausted } calls).restarts.Pairwise
        (fun later earlier : Restart => earlier.ended + settings.cooldownSec ≤ later.began) ∧
      (∀ more, .disable ∈ calls ∨
          (Restarting.run settings clock { manager, onBudgetExhausted } calls).policy.state =
            .fatalDegraded →
        (Restarting.run settings clock { manager, onBudgetExhausted } (calls ++ more)).restarts =
          (Restarting.run settings clock { manager, onBudgetExhausted } calls).restarts) ∧
      (∀ more, (Restarting.run settings clock { manager, onBudgetExhausted } calls).policy.state =
          .fatalDegraded →
        (Restarting.run settings clock { manager, onBudgetExhausted }
          (calls ++ more)).policy.state = .fatalDegraded) ∧
      (Restarting.run settings clock { manager, onBudgetExhausted } calls).exhausted.length ≤ 1 := by
  have htracks := @Restarting.tracks_run settings clock
    { manager, onBudgetExhausted } rfl rfl calls
  refine ⟨htracks.paced.countP_within, htracks.paced.cooled, fun more hrefused => ?_,
    fun more hfatal => ?_, ?_⟩
  · rw [Restarting.run_append]
    rcases hrefused with hdisable | hfatal
    · exact (Restarting.refused more _).1 (Restarting.disabled_of_mem hdisable _)
    · exact ((Restarting.refused more _).2 hfatal).1
  · rw [Restarting.run_append]
    exact ((Restarting.refused more _).2 hfatal).2
  · refine (Restarting.exhausted_run _ calls).trans ?_
    split
    · exact le_refl 1
    · exact Nat.zero_le 1

end JanusGraph
