import JanusGraph.Daemon.RestartPolicy

/-!
# What `can_restart` leaves out

`can_restart` and `attempt_restart` go through the same gates (the fatal state, the window, the
cooldown), each in its own words, and `attempt_restart` through two more: the operator's switch
and the bound manager. Here a call of `manager.start()` takes its time: other calls come while
it runs, and an attempt among them is skipped.
-/

namespace JanusGraph

/-- A policy at work, and since when a call of `manager.start()` has been running. -/
structure Overlapping : Type where
  work : Restarting
  inFlight : Option ℚ

section

variable (settings : FalkorRestartPolicySettings) (clock : Clock)

/-- The gates of `_attempt_restart_locked` after the one of the cooldown: whether
`manager.start()` is called. -/
def Restarting.cooledGates (w : Restarting) : Bool × Restarting :=
  if settings.maxPerHour ≤ w.policy.restartTimes.length then
    (false, w.enterFatalDegraded settings clock)
  else (w.policy.manager, w)

/-- The gates of `_attempt_restart_locked` -/
def Restarting.gates (w : Restarting) : Bool × Restarting :=
  let w := w.pruneWindow clock
  match w.policy.lastRestartAt with
  | none => w.cooledGates settings clock
  | some t =>
    let elapsed := clock.now w.ticks - t
    let w := { w with ticks := w.ticks + 1 }
    if elapsed < settings.cooldownSec then
      (false, { w with policy := { w.policy with state := .coolingDown } })
    else w.cooledGates settings clock

/-- `attempt_restart`, up to its call of `manager.start()` -/
def Overlapping.attemptRestart (s : Overlapping) : Overlapping :=
  if s.work.policy.disabledByOperator then s
  else if s.work.policy.state = .fatalDegraded then s
  else if s.inFlight.isSome then s
  else
    let (starts, w) := s.work.gates settings clock
    if starts then ⟨{ w with ticks := w.ticks + 1 }, some (clock.now w.ticks)⟩ else ⟨w, none⟩

/-- `_attempt_restart_locked` from the end of `manager.start()` on. -/
def Overlapping.startEnds (s : Overlapping) (outcome : StartOutcome) : Overlapping :=
  match s.inFlight, outcome with
  | none, _ => s
  | some _, .raised => ⟨s.work.enterFatalDegraded settings clock, none⟩
  | some began, .returned _ =>
    let ended := clock.now s.work.ticks
    let now := clock.now (s.work.ticks + 1)
    ⟨{ s.work with
        policy := { s.work.policy with
          restartTimes := s.work.policy.restartTimes ++ [now]
          lastRestartAt := some now
          state := .ok }
        ticks := s.work.ticks + 2
        restarts := ⟨began, ended, now⟩ :: s.work.restarts },
      none⟩

/-- `register_manager` -/
def Overlapping.registerManager (s : Overlapping) : Overlapping :=
  { s with work := { s.work with policy := { s.work.policy with manager := true } } }

/-- The calls, and the end of `manager.start()`. -/
inductive PolicyEvent : Type where
  | attemptRestart
  | startEnds (outcome : StartOutcome)
  | onCircuitOpened (manager : Bool)
  | registerManager | disable | canRestart | snapshot

/-- One event. -/
def Overlapping.step (s : Overlapping) : PolicyEvent → Overlapping
  | .attemptRestart => s.attemptRestart settings clock
  | .startEnds outcome => s.startEnds settings clock outcome
  | .onCircuitOpened manager =>
    (if manager then s.registerManager else s).attemptRestart settings clock
  | .registerManager => s.registerManager
  | .disable => { s with work := s.work.disable }
  | .canRestart => { s with work := (s.work.canRestart settings clock).2 }
  | .snapshot => { s with work := (s.work.snapshot settings clock).2 }

/-- A run of events on a new policy. -/
def Overlapping.run (policy : FalkorRestartPolicy) (events : List PolicyEvent) : Overlapping :=
  events.foldl (Overlapping.step settings clock) ⟨⟨policy, 0, [], []⟩, none⟩

end

/-- The clock at one instant. -/
def Clock.stopped (t : ℚ) : Clock := ⟨fun _ => t, monotone_const⟩

/-- At the instant `t`, `can_restart()` says whether `attempt_restart()` would call
`manager.start()`. -/
def Overlapping.Predicts (settings : FalkorRestartPolicySettings) (s : Overlapping) (t : ℚ) :
    Prop :=
  (s.work.canRestart settings (.stopped t)).1 = true ↔
    (s.attemptRestart settings (.stopped t)).inFlight.isSome = true

/-- The policy is enabled and has a manager, or one of the gates that `can_restart` knows is
shut: the fatal state, the window of the last hour, the cooldown. -/
def GatesAgree (settings : FalkorRestartPolicySettings) (policy : FalkorRestartPolicy) (t : ℚ) :
    Prop :=
  (policy.disabledByOperator = false ∧ policy.manager = true) ∨
    policy.state = .fatalDegraded ∨
    settings.maxPerHour ≤ (policy.restartTimes.dropWhile fun r => r < t - 3600).length ∨
    ∃ last, policy.lastRestartAt = some last ∧ t - last < settings.cooldownSec

section

variable {settings : FalkorRestartPolicySettings} {clock : Clock}

/-- An attempt that nothing else overlaps is its gates and what comes after them. -/
theorem Restarting.attemptRestartLocked_eq (w : Restarting) (outcome : StartOutcome) :
    w.attemptRestartLocked settings clock outcome =
      if (w.gates settings clock).1 then (w.gates settings clock).2.execute settings clock outcome
      else (false, (w.gates settings clock).2) := by
  have hcooled : ∀ w : Restarting, w.attemptCooled settings clock outcome =
      if (w.cooledGates settings clock).1 then
        (w.cooledGates settings clock).2.execute settings clock outcome
      else (false, (w.cooledGates settings clock).2) := by
    intro w
    rw [attemptCooled, cooledGates]
    split
    · rfl
    · cases w.policy.manager <;> rfl
  rcases hlast : (w.pruneWindow clock).policy.lastRestartAt with _ | last
  · simp only [attemptRestartLocked, gates, hlast]
    exact hcooled _
  · simp only [attemptRestartLocked, gates, hlast]
    by_cases hcold : clock.now (w.pruneWindow clock).ticks - last < settings.cooldownSec
    · simp only [if_pos hcold]
      rfl
    · simp only [if_neg hcold]
      exact hcooled _

/-- **Alone.** An attempt whose `manager.start()` returns before anything else happens is the
attempt of a policy whose calls do not overlap. -/
theorem Overlapping.attemptRestart_alone (s : Overlapping) (hidle : s.inFlight = none) (ok : Bool) :
    (s.attemptRestart settings clock).startEnds settings clock (.returned ok) =
      ⟨(s.work.attemptRestart settings clock (.returned ok)).2, none⟩ := by
  obtain ⟨w, inFlight⟩ := s
  obtain rfl : inFlight = none := hidle
  rw [attemptRestart, Restarting.attemptRestart]
  dsimp only
  split
  · rfl
  split
  · rfl
  rw [Restarting.attemptRestartLocked_eq]
  rcases w.gates settings clock with ⟨_ | _, gated⟩ <;> rfl

/-! ## What is kept -/

/-- What no event but `disable()` changes. -/
structure Restarting.Keeps (w w' : Restarting) : Prop where
  state : w.policy.state ≠ .budgetExhausted → w'.policy.state ≠ .budgetExhausted
  manager : w.policy.manager = true → w'.policy.manager = true
  disabled : w'.policy.disabledByOperator = w.policy.disabledByOperator

theorem Restarting.Keeps.trans {w w' w'' : Restarting} (h : w.Keeps w') (h' : w'.Keeps w'') :
    w.Keeps w'' :=
  ⟨h'.state ∘ h.state, h'.manager ∘ h.manager, h'.disabled.trans h.disabled⟩

theorem Restarting.keeps_enterFatalDegraded (w : Restarting) :
    w.Keeps (w.enterFatalDegraded settings clock) := by
  rw [enterFatalDegraded]
  split
  · exact ⟨id, id, rfl⟩
  · dsimp only
    split <;> exact ⟨fun _ => by rintro ⟨⟩, id, rfl⟩

theorem Restarting.keeps_cooledGates (w : Restarting) :
    w.Keeps (w.cooledGates settings clock).2 := by
  rw [cooledGates]
  split
  · exact w.keeps_enterFatalDegraded
  · exact ⟨id, id, rfl⟩

theorem Restarting.keeps_gates (w : Restarting) : w.Keeps (w.gates settings clock).2 := by
  rw [gates]
  dsimp only
  split
  · refine Keeps.trans ?_ (keeps_cooledGates _)
    exact ⟨id, id, rfl⟩
  · split
    · exact ⟨fun _ => nofun, id, rfl⟩
    · refine Keeps.trans ?_ (keeps_cooledGates _)
      exact ⟨id, id, rfl⟩

theorem Restarting.keeps_canRestart (w : Restarting) :
    w.Keeps (w.canRestart settings clock).2 := by
  rw [canRestart]
  split
  · exact ⟨id, id, rfl⟩
  · split
    · exact ⟨id, id, rfl⟩
    · dsimp only
      split
      · exact ⟨id, id, rfl⟩
      · split <;> exact ⟨id, id, rfl⟩

theorem Overlapping.keeps_attemptRestart (s : Overlapping) :
    s.work.Keeps (s.attemptRestart settings clock).work := by
  rw [attemptRestart]
  split
  · exact ⟨id, id, rfl⟩
  · split
    · exact ⟨id, id, rfl⟩
    · split
      · exact ⟨id, id, rfl⟩
      · have hgates := @Restarting.keeps_gates settings clock s.work
        dsimp only
        split
        · exact hgates.trans ⟨id, id, rfl⟩
        · exact hgates

theorem Overlapping.keeps_startEnds (s : Overlapping) (outcome : StartOutcome) :
    s.work.Keeps (s.startEnds settings clock outcome).work := by
  obtain ⟨work, _ | began⟩ := s
  · exact ⟨id, id, rfl⟩
  · cases outcome with
    | returned ok => exact ⟨fun _ => nofun, id, rfl⟩
    | raised => exact work.keeps_enterFatalDegraded

/-- **Step.** -/
theorem Overlapping.keeps_step (s : Overlapping) {e : PolicyEvent} (h : e ≠ .disable) :
    s.work.Keeps (s.step settings clock e).work := by
  cases e with
  | attemptRestart => exact s.keeps_attemptRestart
  | startEnds outcome => exact s.keeps_startEnds outcome
  | onCircuitOpened manager =>
    rw [step]
    split
    · refine Restarting.Keeps.trans ?_ (keeps_attemptRestart s.registerManager)
      exact ⟨id, fun _ => rfl, rfl⟩
    · exact s.keeps_attemptRestart
  | registerManager => exact ⟨id, fun _ => rfl, rfl⟩
  | disable => exact absurd rfl h
  | canRestart => exact s.work.keeps_canRestart
  | snapshot => exact ⟨id, id, rfl⟩

/-- **Run.** `BUDGET_EXHAUSTED` is never entered. -/
theorem Overlapping.state_foldl (events : List PolicyEvent) {s : Overlapping}
    (h : s.work.policy.state ≠ .budgetExhausted) :
    (events.foldl (step settings clock) s).work.policy.state ≠ .budgetExhausted := by
  induction events generalizing s with
  | nil => exact h
  | cons e events ih =>
    refine ih ?_
    by_cases he : e = .disable
    · subst he
      exact h
    · exact (s.keeps_step he).state h

/-- **Run.** Without `disable()` the policy stays enabled, and a manager stays bound. -/
theorem Overlapping.enabled_foldl (events : List PolicyEvent) {s : Overlapping}
    (hevents : .disable ∉ events) (hdisabled : s.work.policy.disabledByOperator = false)
    (hmanager : s.work.policy.manager = true) :
    (events.foldl (step settings clock) s).work.policy.disabledByOperator = false ∧
      (events.foldl (step settings clock) s).work.policy.manager = true := by
  induction events generalizing s with
  | nil => exact ⟨hdisabled, hmanager⟩
  | cons e events ih =>
    obtain ⟨he, hevents⟩ := not_or.mp (mt List.mem_cons.mpr hevents)
    have hkeeps := @keeps_step settings clock s e (Ne.symm he)
    exact ih hevents (hkeeps.disabled.trans hdisabled) (hkeeps.manager hmanager)

/-! ## The two lists of gates -/

/-- The gates that both functions know are open. -/
def Permitted (settings : FalkorRestartPolicySettings) (policy : FalkorRestartPolicy) (t : ℚ) :
    Prop :=
  policy.state ≠ .fatalDegraded ∧
    ¬ settings.maxPerHour ≤ (policy.restartTimes.dropWhile fun r => r < t - 3600).length ∧
    ∀ last, policy.lastRestartAt = some last → ¬ t - last < settings.cooldownSec

theorem Restarting.canRestart_stopped (w : Restarting) (t : ℚ)
    (h : w.policy.state ≠ .budgetExhausted) :
    (w.canRestart settings (.stopped t)).1 = true ↔ Permitted settings w.policy t := by
  rw [canRestart, if_neg h]
  split
  · next hfatal => exact iff_of_false Bool.false_ne_true fun hp => hp.1 hfatal
  · next halive =>
    dsimp only
    split
    · next hfull => exact iff_of_false Bool.false_ne_true fun hp => hp.2.1 hfull
    · next hroom =>
      split
      · next hnone =>
        have hnone' : w.policy.lastRestartAt = none := hnone
        refine iff_of_true rfl ⟨halive, hroom, fun last hlast => ?_⟩
        rw [hnone'] at hlast
        cases hlast
      · next last hlast =>
        have hlast' : w.policy.lastRestartAt = some last := hlast
        rw [Bool.not_eq_true', decide_eq_false_iff_not]
        constructor
        · refine fun hcooled => ⟨halive, hroom, fun last' hlast'' => ?_⟩
          obtain rfl := Option.some.inj (hlast'.symm.trans hlast'')
          exact hcooled
        · exact fun hp => hp.2.2 last hlast'

theorem Restarting.cooledGates_fst (w : Restarting) :
    (w.cooledGates settings clock).1 = true ↔
      ¬ settings.maxPerHour ≤ w.policy.restartTimes.length ∧ w.policy.manager = true := by
  rw [cooledGates]
  split
  · next hfull => simp [hfull]
  · next hfull => simp [hfull]

theorem Restarting.gates_stopped (w : Restarting) (t : ℚ)
    (hfatal : w.policy.state ≠ .fatalDegraded) :
    (w.gates settings (.stopped t)).1 = true ↔
      Permitted settings w.policy t ∧ w.policy.manager = true := by
  rw [gates]
  dsimp only
  split
  · next hnone =>
    have hnone' : w.policy.lastRestartAt = none := hnone
    refine (cooledGates_fst _).trans ⟨fun hg => ⟨⟨hfatal, hg.1, fun last hlast => ?_⟩, hg.2⟩,
      fun hp => ⟨hp.1.2.1, hp.2⟩⟩
    rw [hnone'] at hlast
    cases hlast
  · next last hlast =>
    have hlast' : w.policy.lastRestartAt = some last := hlast
    split
    · next hcold => exact iff_of_false nofun fun hp => hp.1.2.2 last hlast hcold
    · next hcooled =>
      refine (cooledGates_fst _).trans ⟨fun hg => ⟨⟨hfatal, hg.1, fun last' hlast'' => ?_⟩, hg.2⟩,
        fun hp => ⟨hp.1.2.1, hp.2⟩⟩
      obtain rfl := Option.some.inj (hlast'.symm.trans hlast'')
      exact hcooled

/-- `attempt_restart()` goes through the gates of `can_restart()` and through two more. -/
theorem Overlapping.attemptRestart_stopped (s : Overlapping) (t : ℚ) (hidle : s.inFlight = none) :
    (s.attemptRestart settings (.stopped t)).inFlight.isSome = true ↔
      Permitted settings s.work.policy t ∧
        s.work.policy.disabledByOperator = false ∧ s.work.policy.manager = true := by
  rw [attemptRestart, hidle]
  cases hdisabled : s.work.policy.disabledByOperator with
  | true => simp [hidle]
  | false =>
    by_cases hfatal : s.work.policy.state = .fatalDegraded
    · simp [hidle, hfatal, Permitted]
    · simp only [if_neg hfatal, Option.isSome_none, Bool.false_eq_true, if_false, true_and]
      rw [← s.work.gates_stopped t hfatal]
      split
      · next hstarts => simp [hstarts]
      · next hstarts => simp [hstarts]

theorem gatesAgree_iff {policy : FalkorRestartPolicy} {t : ℚ} :
    GatesAgree settings policy t ↔ (Permitted settings policy t →
      policy.disabledByOperator = false ∧ policy.manager = true) := by
  rw [GatesAgree, Permitted]
  constructor
  · rintro (hopen | hfatal | hfull | ⟨last, hlast, hcold⟩) ⟨halive, hroom, hcooled⟩
    · exact hopen
    · exact absurd hfatal halive
    · exact absurd hfull hroom
    · exact absurd hcold (hcooled last hlast)
  · intro h
    by_contra hnone
    obtain ⟨hshut, halive, hroom, hcooled⟩ : _ ∧ _ ∧ _ ∧ _ := by simpa only [not_or] using hnone
    exact hshut (h ⟨halive, hroom, fun last hlast hcold => hcooled ⟨last, hlast, hcold⟩⟩)

end

/-- **The prediction holds exactly when** the operator's switch and the manager are not what
decides: in any state reached without a restart in flight, at any instant. On a policy that is
built with a manager and never disabled it always holds. -/
theorem canRestart_predicts_iff (settings : FalkorRestartPolicySettings) (clock : Clock)
    (manager onBudgetExhausted : Bool) (events : List PolicyEvent) (t : ℚ)
    (hidle : (Overlapping.run settings clock { manager, onBudgetExhausted } events).inFlight =
      none) :
    ((Overlapping.run settings clock { manager, onBudgetExhausted } events).Predicts settings t ↔
      GatesAgree settings
        (Overlapping.run settings clock { manager, onBudgetExhausted } events).work.policy t) ∧
    (manager = true → .disable ∉ events →
      (Overlapping.run settings clock { manager, onBudgetExhausted } events).Predicts
        settings t) := by
  have hstate : (Overlapping.run settings clock { manager, onBudgetExhausted }
      events).work.policy.state ≠ .budgetExhausted := Overlapping.state_foldl events nofun
  have hiff : (Overlapping.run settings clock { manager, onBudgetExhausted } events).Predicts
      settings t ↔ GatesAgree settings
        (Overlapping.run settings clock { manager, onBudgetExhausted } events).work.policy t := by
    rw [Overlapping.Predicts, Restarting.canRestart_stopped _ t hstate,
      Overlapping.attemptRestart_stopped _ t hidle, gatesAgree_iff]
    exact ⟨fun h hp => (h.mp hp).2, fun h => ⟨fun hp => ⟨hp, h hp⟩, fun hp => hp.1⟩⟩
  refine ⟨hiff, fun hmanager hevents => hiff.mpr (.inl ?_)⟩
  exact Overlapping.enabled_foldl events hevents rfl hmanager

/-- A restart that was completed, and the instant at which its cooldown ends. -/
theorem canRestart_predicts_iff_cooled :
    (Overlapping.run {} (.stopped 0) { manager := true, onBudgetExhausted := false }
      [.attemptRestart, .startEnds (.returned true)]).Predicts {} 60 :=
  (canRestart_predicts_iff {} (.stopped 0) true false
    [.attemptRestart, .startEnds (.returned true)] 60 rfl).2 rfl (by simp)

/-- A policy with a manager that the operator disables: `can_restart()` is true, and
`attempt_restart()` refuses. -/
theorem not_canRestart_predicts :
    ¬ ∀ (settings : FalkorRestartPolicySettings) (clock : Clock) (manager onBudgetExhausted : Bool)
      (events : List PolicyEvent) (t : ℚ),
      (Overlapping.run settings clock { manager, onBudgetExhausted } events).inFlight = none →
      (Overlapping.run settings clock { manager, onBudgetExhausted } events).Predicts
        settings t := by
  intro h
  have hcan : ((Overlapping.run {} (.stopped 0) { manager := true, onBudgetExhausted := false }
      [.disable]).work.canRestart {} (.stopped 0)).1 = true := by decide
  have hrefused : ((Overlapping.run {} (.stopped 0) { manager := true, onBudgetExhausted := false }
      [.disable]).attemptRestart {} (.stopped 0)).inFlight.isSome = false := rfl
  have hstarts := (h {} (.stopped 0) true false [.disable] 0 rfl).mp hcan
  rw [hrefused] at hstarts
  cases hstarts

end JanusGraph
