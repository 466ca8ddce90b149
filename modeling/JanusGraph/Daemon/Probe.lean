import JanusGraph.Daemon.Breaker
import JanusGraph.Lib.Prog
import Mathlib.Data.List.Induction

/-!
# Probes through the breaker

`DaemonSupervisor.probe` of `daemon/falkordb_supervisor.py`, and any number of callers that
use one breaker at the same time. Between two of its awaits a caller runs alone; what
FalkorDB and its pidfile say is up to the schedule.
-/

namespace JanusGraph

/-- `ProbeState` -/
inductive ProbeState : Type where
  | alive | warmingUp | dead
  deriving DecidableEq

/-- What a caller awaits. -/
inductive ProbeRequest : Type where
  | allowProbe | acquireProbeSlot | recordSuccess | recordFailure
  /-- `_probe_redis` -/
  | ping
  /-- `manager.is_running` -/
  | isRunning
  deriving DecidableEq

/-- What it gets. -/
abbrev ProbeRequest.Answer : ProbeRequest → Type
  | .allowProbe => Bool
  | .acquireProbeSlot => Bool
  | .recordSuccess => Unit
  | .recordFailure => Unit
  | .ping => Except String ProbeState
  | .isRunning => Except String Bool

/-- A caller under way. -/
abbrev Probing (α : Type) : Type := Prog ProbeRequest ProbeRequest.Answer Empty α

/-- Await one thing. -/
def await (q : ProbeRequest) : Probing q.Answer := Prog.request q

/-- `alive` and `warming_up`, as the `try` of `probe` leaves them. -/
def probeOutcome : Probing (Bool × Bool) := do
  match ← (await .ping : Probing (Except String ProbeState)) with
  | .error _ => return (false, false)
  | .ok .alive => return (true, false)
  | .ok .warmingUp =>
    match ← (await .isRunning : Probing (Except String Bool)) with
    | .error _ => return (false, false)
    | .ok alive => return (alive, true)
  | .ok .dead =>
    match ← (await .isRunning : Probing (Except String Bool)) with
    | .error _ => return (false, false)
    | .ok alive => return (alive, false)

/-- `DaemonSupervisor.probe` -/
def probe : Probing Bool := do
  if ← await .allowProbe then
    let (alive, warmingUp) ← probeOutcome
    if alive then
      let _ ← await .recordSuccess
    else if !warmingUp then
      let _ ← await .recordFailure
    return alive
  else return false

/-- Who comes to the breaker. -/
inductive Caller : Type where
  | allowProbe | acquireProbeSlot | recordSuccess | recordFailure | probe
  deriving DecidableEq

/-- What the caller does. -/
def Caller.prog : Caller → Probing Unit
  | .allowProbe => do let _ ← await .allowProbe
  | .acquireProbeSlot => do let _ ← await .acquireProbeSlot
  | .recordSuccess => await .recordSuccess
  | .recordFailure => await .recordFailure
  | .probe => do let _ ← JanusGraph.probe

/-- One who has come to the breaker. -/
structure Visit : Type where
  caller : Caller
  /-- what is left of it -/
  prog : Probing Unit
  /-- how often it has moved -/
  moves : ℕ := 0
  /-- the breaker was not cooling down when it made the first move -/
  due : Bool := false

/-- What has been let through since the last transition of the breaker. -/
structure ProbeTally : Type where
  /-- the calls of `acquire_probe_slot` in `HALF_OPEN` that returned `True` -/
  granted : ℕ := 0
  /-- the pings in `HALF_OPEN` -/
  pings : ℕ := 0
  deriving DecidableEq

/-- Who has come since then, whatever they were told. -/
structure ProbeDemand : Type where
  /-- the calls of `acquire_probe_slot` in `HALF_OPEN` -/
  slots : ℕ := 0
  /-- the supervisor's probes that are past their gate and moved on in `HALF_OPEN` -/
  probes : ℕ := 0
  deriving DecidableEq

/-- The breaker, those who use it, and what they have done. -/
structure ProbeRun : Type where
  breaking : Breaking
  visits : List Visit
  tally : ProbeTally
  demand : ProbeDemand

/-- One entry of a schedule. -/
inductive ProbeTurn : Type where
  | arrive (caller : Caller)
  /-- the i-th caller gets what it awaits, and runs to its next await -/
  | move (i : ℕ) (ping : Except String ProbeState) (running : Except String Bool)

/-- It calls `acquire_probe_slot`. -/
def Visit.CallsSlot (v : Visit) : Prop := v.caller = .acquireProbeSlot ∧ v.moves = 0

/-- It is a probe of the supervisor that has come to its gate when the breaker was not cooling
down, and goes on from there. -/
def Visit.GoesOn (v : Visit) : Prop := v.caller = .probe ∧ v.moves = 1 ∧ v.due

instance (v : Visit) : Decidable v.CallsSlot := inferInstanceAs (Decidable (_ ∧ _))

instance (v : Visit) : Decidable v.GoesOn := inferInstanceAs (Decidable (_ ∧ _ ∧ _))

section

variable (settings : FalkorCircuitSettings) (clock : Clock) (hook : Option OnCircuitOpenedCallback)

/-- The breaker is not `OPEN`, or `retry_at` has come. -/
def Breaking.due (w : Breaking) : Bool :=
  w.breaker.state ≠ .opened || w.breaker.retryAt.any fun retryAt => retryAt ≤ clock.now w.ticks

/-- What the caller gets, and the breaker after it. -/
def ProbeRequest.answer (ping : Except String ProbeState) (running : Except String Bool) :
    (q : ProbeRequest) → Breaking → q.Answer × Breaking
  | .allowProbe, w => w.allowProbe settings clock hook
  | .acquireProbeSlot, w => (w.acquireProbeSlot, w)
  | .recordSuccess, w => ((), w.recordSuccess settings clock hook)
  | .recordFailure, w => ((), w.recordFailure settings clock hook)
  | .ping, w => (ping, w)
  | .isRunning, w => (running, w)

/-- Whether a slot was granted. -/
def ProbeRequest.grants : (q : ProbeRequest) → q.Answer → Bool
  | .acquireProbeSlot, answer => answer
  | _, _ => false

/-- Count a request that was answered in `w`; a transition starts a new count. -/
def ProbeTally.count (tally : ProbeTally) (q : ProbeRequest) (granted : Bool) (w w' : Breaking) :
    ProbeTally :=
  if w'.transitions.length ≠ w.transitions.length then {}
  else if w.breaker.state = .halfOpen then
    { granted := tally.granted + if granted then 1 else 0
      pings := tally.pings + if q = .ping then 1 else 0 }
  else tally

/-- Count one who moved in `w`. -/
def ProbeDemand.count (demand : ProbeDemand) (v : Visit) (w w' : Breaking) : ProbeDemand :=
  if w'.transitions.length ≠ w.transitions.length then {}
  else if w.breaker.state = .halfOpen then
    { slots := demand.slots + if v.CallsSlot then 1 else 0
      probes := demand.probes + if v.GoesOn then 1 else 0 }
  else demand

/-- It moves on to the rest of its program. -/
def Visit.moveOn (v : Visit) (w : Breaking) (rest : Probing Unit) : Visit :=
  { v with
    prog := rest
    moves := v.moves + 1
    due := if v.moves = 0 then w.due clock else v.due }

/-- One turn of a schedule. -/
def ProbeRun.turn (p : ProbeRun) : ProbeTurn → ProbeRun
  | .arrive caller => { p with visits := p.visits ++ [{ caller, prog := caller.prog }] }
  | .move i ping running =>
    match p.visits[i]? with
    | none => p
    | some v =>
      match v.prog with
      | .ask q k =>
        let answer := q.answer settings clock hook ping running p.breaking
        { breaking := answer.2
          visits := p.visits.set i (v.moveOn clock p.breaking (k answer.1))
          tally := p.tally.count q (q.grants answer.1) p.breaking answer.2
          demand := p.demand.count v p.breaking answer.2 }
      | _ => p

/-- Nobody has come yet. -/
def ProbeRun.init : ProbeRun := ⟨.init clock, [], {}, {}⟩

/-- A run. -/
def ProbeRun.run (turns : List ProbeTurn) : ProbeRun :=
  turns.foldl (ProbeRun.turn settings clock hook) (.init clock)

/-- `half_open_max_probes`; a negative budget admits nobody. -/
def FalkorCircuitSettings.budget : ℕ := settings.halfOpenMaxProbes.toNat

/-- Since `HALF_OPEN` was entered, as many calls of `acquire_probe_slot` have been granted as
`half_open_max_probes` allows, and FalkorDB has been pinged no more often. -/
def ProbeRun.Budgeted (p : ProbeRun) : Prop :=
  p.breaking.breaker.state = .halfOpen →
    p.tally.granted = min p.demand.slots settings.budget ∧ p.tally.pings ≤ settings.budget

/-- In `HALF_OPEN` nobody calls `acquire_probe_slot` after `half_open_max_probes` others, and no
probe of the supervisor goes on from its gate after so many others. -/
def ProbeTurn.Within (p : ProbeRun) : ProbeTurn → Prop
  | .arrive _ => True
  | .move i _ _ => p.breaking.breaker.state = .halfOpen → ∀ v, p.visits[i]? = some v →
    (v.CallsSlot → p.demand.slots < settings.budget) ∧
      (v.GoesOn → p.demand.probes < settings.budget)

end

variable {settings : FalkorCircuitSettings} {clock : Clock} {hook : Option OnCircuitOpenedCallback}
  {p : ProbeRun}

/-! ## Callers -/

/-- The gate lets through whoever comes while the breaker is not cooling down. -/
theorem Breaking.allowProbe_fst (w : Breaking) :
    (w.allowProbe settings clock hook).1 = w.due clock := by
  rw [allowProbe, due]
  rcases w.breaker.state with _ | _ | _
  · rfl
  · cases w.breaker.retryAt.any fun retryAt => retryAt ≤ clock.now w.ticks <;> simp
  · rfl

/-- A request that is neither a slot nor a ping. -/
def ProbeRequest.Plain (q : ProbeRequest) : Prop := q ≠ .acquireProbeSlot ∧ q ≠ .ping

/-- What is left of a probe that is past its gate. -/
def PingsFirst : Probing Unit → Prop
  | .ask .ping k => ∀ answer, (k answer).Only ProbeRequest.Plain
  | _ => False

/-- What is left of a caller, by how often it has moved. -/
structure Visit.Sound (v : Visit) : Prop where
  come : v.moves = 0 → v.prog = v.caller.prog
  /-- behind its gate a probe pings -/
  gated : v.GoesOn → PingsFirst v.prog
  past : v.moves ≠ 0 → ¬ v.GoesOn → v.prog.Only ProbeRequest.Plain

theorem probe_gated : ∃ k, Caller.probe.prog = .ask .allowProbe k ∧ PingsFirst (k true) ∧
    (k false).Only ProbeRequest.Plain := by
  have hplain : ∀ q : ProbeRequest, q = .recordSuccess ∨ q = .recordFailure ∨ q = .isRunning →
      q.Plain := by
    rintro q (rfl | rfl | rfl) <;> exact ⟨nofun, nofun⟩
  have hsuccess := hplain .recordSuccess (.inl rfl)
  have hfailure := hplain .recordFailure (.inr (.inl rfl))
  have hrunning := hplain .isRunning (.inr (.inr rfl))
  refine ⟨_, rfl, fun answer => ?_, trivial⟩
  rcases answer with error | _ | _ | _
  · exact ⟨hfailure, fun _ => trivial⟩
  · exact ⟨hsuccess, fun _ => trivial⟩
  · refine ⟨hrunning, fun running => ?_⟩
    rcases running with error | _ | _
    · exact ⟨hfailure, fun _ => trivial⟩
    · exact trivial
    · exact ⟨hsuccess, fun _ => trivial⟩
  · refine ⟨hrunning, fun running => ?_⟩
    rcases running with error | _ | _
    · exact ⟨hfailure, fun _ => trivial⟩
    · exact ⟨hfailure, fun _ => trivial⟩
    · exact ⟨hsuccess, fun _ => trivial⟩

/-- Each caller but a probe makes one request. -/
theorem Caller.prog_of_ne (caller : Caller) (hne : caller ≠ .probe) :
    ∃ q k, caller.prog = .ask q k ∧ q ≠ .ping ∧
      (q = .acquireProbeSlot ↔ caller = .acquireProbeSlot) ∧
        ∀ answer, (k answer).Only ProbeRequest.Plain := by
  cases caller with
  | allowProbe => exact ⟨.allowProbe, _, rfl, nofun, ⟨nofun, nofun⟩, fun _ => trivial⟩
  | acquireProbeSlot =>
    exact ⟨.acquireProbeSlot, _, rfl, nofun, iff_of_true rfl rfl, fun _ => trivial⟩
  | recordSuccess => exact ⟨.recordSuccess, _, rfl, nofun, ⟨nofun, nofun⟩, fun _ => trivial⟩
  | recordFailure => exact ⟨.recordFailure, _, rfl, nofun, ⟨nofun, nofun⟩, fun _ => trivial⟩
  | probe => exact absurd rfl hne


theorem PingsFirst.ask {q : ProbeRequest} {k : q.Answer → Probing Unit}
    (h : PingsFirst (.ask q k)) : q = .ping ∧ ∀ answer, (k answer).Only ProbeRequest.Plain := by
  cases q with
  | ping => exact ⟨rfl, h⟩
  | _ => exact absurd h id

/-- Who asks for a slot, and who pings, is seen from how far the callers have come. -/
theorem Visit.Sound.request_iff {v : Visit} (h : v.Sound) {q : ProbeRequest}
    {k : q.Answer → Probing Unit} (hprog : v.prog = .ask q k) :
    (q = .acquireProbeSlot ↔ v.CallsSlot) ∧ (q = .ping ↔ v.GoesOn) := by
  by_cases hmoves : v.moves = 0
  · have hstay : ¬ v.GoesOn := fun hon => absurd (hon.2.1.symm.trans hmoves) Nat.one_ne_zero
    have hcome := (h.come hmoves).symm.trans hprog
    by_cases hprobe : v.caller = .probe
    · obtain ⟨k', hk', -, -⟩ := probe_gated
      rw [hprobe, hk'] at hcome
      cases hcome
      have hnot : ¬ v.CallsSlot := fun hslot => nomatch (hprobe.symm.trans hslot.1)
      exact ⟨iff_of_false nofun hnot, iff_of_false nofun hstay⟩
    · obtain ⟨q', k', hk', hping, hslot, -⟩ := v.caller.prog_of_ne hprobe
      cases hk'.symm.trans hcome
      exact ⟨hslot.trans (and_iff_left hmoves).symm, iff_of_false hping hstay⟩
  · have hnot : ¬ v.CallsSlot := fun hslot => hmoves hslot.2
    by_cases hon : v.GoesOn
    · obtain ⟨rfl, -⟩ := (hprog ▸ h.gated hon).ask
      exact ⟨iff_of_false nofun hnot, iff_of_true rfl hon⟩
    · obtain ⟨hslot, hping⟩ := (hprog ▸ h.past hmoves hon).1
      exact ⟨iff_of_false hslot hnot, iff_of_false hping hon⟩

/-- Neither of them is over. -/
theorem Visit.Sound.asks {v : Visit} (h : v.Sound) (hcome : v.CallsSlot ∨ v.GoesOn) :
    ∃ q k, v.prog = .ask q k := by
  rcases hcome with ⟨hcaller, hmoves⟩ | hon
  · rw [h.come hmoves, hcaller]
    exact ⟨_, _, rfl⟩
  · have hpings := h.gated hon
    revert hpings
    cases v.prog with
    | ask q k => exact fun _ => ⟨q, k, rfl⟩
    | ret _ => exact False.elim
    | fail e => exact e.elim

/-- A caller stays sound as it moves on. A probe gets behind its gate if the breaker is not
cooling down. -/
theorem Visit.Sound.moveOn {v : Visit} (h : v.Sound) {q : ProbeRequest}
    {k : q.Answer → Probing Unit} (hprog : v.prog = .ask q k) (ping : Except String ProbeState)
    (running : Except String Bool) (w : Breaking) :
    (v.moveOn clock w (k (q.answer settings clock hook ping running w).1)).Sound := by
  by_cases hmoves : v.moves = 0
  · have hcome := (h.come hmoves).symm.trans hprog
    have hmoved : (v.moveOn clock w (k (q.answer settings clock hook ping running w).1)).GoesOn ↔
        v.caller = .probe ∧ w.due clock := by
      simp [GoesOn, Visit.moveOn, hmoves]
    refine ⟨fun h0 => absurd h0 (Nat.succ_ne_zero _), fun hon => ?_, fun _ hon => ?_⟩
    · obtain ⟨hprobe, hdue⟩ := hmoved.mp hon
      obtain ⟨k', hk', hpings, -⟩ := probe_gated
      rw [hprobe, hk'] at hcome
      cases hcome
      change PingsFirst (k' (w.allowProbe settings clock hook).1)
      rwa [w.allowProbe_fst, hdue]
    · by_cases hprobe : v.caller = .probe
      · obtain ⟨k', hk', -, hrest⟩ := probe_gated
        rw [hprobe, hk'] at hcome
        cases hcome
        have hdue : w.due clock = false :=
          Bool.eq_false_iff.mpr fun hdue => hon (hmoved.mpr ⟨hprobe, hdue⟩)
        change (k' (w.allowProbe settings clock hook).1).Only ProbeRequest.Plain
        rwa [w.allowProbe_fst, hdue]
      · obtain ⟨q', k', hk', -, -, hrest⟩ := v.caller.prog_of_ne hprobe
        cases hk'.symm.trans hcome
        exact hrest _
  · have hgone : ¬ (v.moveOn clock w (k (q.answer settings clock hook ping running w).1)).GoesOn :=
      fun hon => hmoves (Nat.succ_injective hon.2.1)
    refine ⟨fun h0 => absurd h0 (Nat.succ_ne_zero _), fun hon => absurd hon hgone, fun _ _ => ?_⟩
    by_cases hon : v.GoesOn
    · exact (hprog ▸ h.gated hon).ask.2 _
    · exact (hprog ▸ h.past hmoves hon).2 _

/-! ## Steps -/

/-- A method makes a transition, or leaves the state as it is. -/
theorem ProbeRequest.state_answer {ping : Except String ProbeState} {running : Except String Bool}
    {q : ProbeRequest} {w : Breaking}
    (h : (q.answer settings clock hook ping running w).2.transitions.length =
      w.transitions.length) :
    (q.answer settings clock hook ping running w).2.breaker.state = w.breaker.state := by
  have hmoved : ∀ {new} {w' : Breaking}, w'.transitions = w.transitions →
      (w'.transitionTo settings clock hook new).transitions.length ≠ w.transitions.length := by
    intro new w' hw'
    rw [Breaking.transitionTo, List.length_append, hw', List.length_singleton]
    exact Nat.succ_ne_self _
  cases q with
  | allowProbe =>
    rw [answer, Breaking.allowProbe] at h ⊢
    split at h <;> try rfl
    dsimp only at h ⊢
    split at h
    · exact absurd h (hmoved rfl)
    · next hearly => rw [if_neg hearly]
  | acquireProbeSlot => rfl
  | recordSuccess =>
    rw [answer, Breaking.recordSuccess] at h ⊢
    dsimp only at h ⊢
    split at h
    · exact absurd h (hmoved rfl)
    · rfl
    · rfl
  | recordFailure =>
    rw [answer, Breaking.recordFailure] at h ⊢
    dsimp only at h ⊢
    split at h
    · exact absurd h (hmoved rfl)
    · split at h
      · exact absurd h (hmoved rfl)
      · next hbelow => rw [if_neg hbelow]
    · rfl
  | ping => rfl
  | isRunning => rfl

/-- In `HALF_OPEN` every caller of `acquire_probe_slot` gets a slot. -/
theorem ProbeRequest.grants_answer {ping : Except String ProbeState}
    {running : Except String Bool} (q : ProbeRequest) {w : Breaking}
    (hhalf : w.breaker.state = .halfOpen) :
    q.grants (q.answer settings clock hook ping running w).1 = (q = .acquireProbeSlot : Bool) := by
  cases q with
  | acquireProbeSlot => exact decide_eq_true hhalf
  | allowProbe => rfl
  | recordSuccess => rfl
  | recordFailure => rfl
  | ping => rfl
  | isRunning => rfl

/-- What the callers come for in `HALF_OPEN` is what they get. -/
structure ProbeRun.Granting (p : ProbeRun) : Prop where
  sound : ∀ v ∈ p.visits, v.Sound
  slots : p.tally.granted = p.demand.slots
  pings : p.tally.pings = p.demand.probes

theorem ProbeRun.Granting.budgeted_iff (h : p.Granting) :
    p.Budgeted settings ↔ (p.breaking.breaker.state = .halfOpen →
      p.demand.slots ≤ settings.budget ∧ p.demand.probes ≤ settings.budget) := by
  have hmin : p.demand.slots = min p.demand.slots settings.budget ↔
      p.demand.slots ≤ settings.budget := eq_comm.trans min_eq_left_iff
  rw [Budgeted, h.slots, h.pings, hmin]

theorem ProbeRun.Granting.turn (h : p.Granting) (turn : ProbeTurn) :
    (p.turn settings clock hook turn).Granting := by
  cases turn with
  | arrive caller =>
    refine ⟨fun v hv => ?_, h.slots, h.pings⟩
    rcases List.mem_append.mp hv with hv | hv
    · exact h.sound v hv
    · rw [List.mem_singleton.mp hv]
      exact ⟨fun _ => rfl, fun hon => absurd hon.2.1 nofun, fun hmoves => absurd rfl hmoves⟩
  | move i ping running =>
    rw [ProbeRun.turn]
    split
    · exact h
    · next v hv =>
      have hsound := h.sound v (List.mem_of_getElem? hv)
      split
      · next q k hprog =>
        obtain ⟨hslot, hping⟩ := hsound.request_iff hprog
        constructor
        · intro v' hv'
          rcases List.mem_or_eq_of_mem_set hv' with hv' | rfl
          · exact h.sound v' hv'
          · exact hsound.moveOn hprog ping running p.breaking
        · simp only [ProbeTally.count, ProbeDemand.count]
          split
          · rfl
          · split
            · next hhalf =>
              simp only [ProbeRequest.grants_answer q hhalf, decide_eq_true_eq, hslot, h.slots]
            · exact h.slots
        · simp only [ProbeTally.count, ProbeDemand.count]
          split
          · rfl
          · split
            · simp only [hping, h.pings]
            · exact h.pings
      · exact h

/-- A turn stays within the budget exactly when the caller does. -/
theorem ProbeRun.budgeted_turn_iff (hgranting : p.Granting) (h : p.Budgeted settings)
    (turn : ProbeTurn) :
    (p.turn settings clock hook turn).Budgeted settings ↔ turn.Within settings p := by
  rw [(hgranting.turn turn).budgeted_iff]
  rw [hgranting.budgeted_iff] at h
  cases turn with
  | arrive caller => exact iff_of_true h trivial
  | move i ping running =>
    rw [ProbeRun.turn, ProbeTurn.Within]
    split
    · next hnone =>
      refine iff_of_true h fun _ v hv => ?_
      rw [hnone] at hv
      cases hv
    · next v hv =>
      have hsound := hgranting.sound v (List.mem_of_getElem? hv)
      split
      · next q k hprog =>
        have hrequest := hsound.request_iff hprog
        simp only [hv, Option.some.injEq, forall_eq']
        by_cases hsame :
            (q.answer settings clock hook ping running p.breaking).2.transitions.length =
              p.breaking.transitions.length
        · -- no transition, so `HALF_OPEN` is what it was
          rw [ProbeRequest.state_answer hsame, ProbeDemand.count, if_neg (not_not.mpr hsame)]
          refine forall_congr' fun hhalf => ?_
          obtain ⟨hslots, hprobes⟩ := h hhalf
          rw [if_pos hhalf]
          refine and_congr ?_ ?_
          · by_cases hslot : v.CallsSlot
            · simp [hslot, Nat.succ_le_iff]
            · simp [hslot, hslots]
          · by_cases hon : v.GoesOn
            · simp [hon, Nat.succ_le_iff]
            · simp [hon, hprobes]
        · -- neither a slot nor a ping makes a transition, which starts a new count
          have hnone : ¬ v.CallsSlot ∧ ¬ v.GoesOn := by
            obtain ⟨hslot, hping⟩ := hrequest
            refine ⟨fun h => hsame ?_, fun h => hsame ?_⟩
            · rw [hslot.mpr h]
              rfl
            · rw [hping.mpr h]
              rfl
          rw [ProbeDemand.count, if_pos hsame]
          exact iff_of_true (fun _ => ⟨Nat.zero_le _, Nat.zero_le _⟩) fun _ =>
            ⟨fun h => absurd h hnone.1, fun h => absurd h hnone.2⟩
      · next hdone =>
        refine iff_of_true h fun _ v' hv' => ?_
        cases hv.symm.trans hv'
        have hover : ¬ (v.CallsSlot ∨ v.GoesOn) := fun hcome => by
          obtain ⟨q, k, hprog⟩ := hsound.asks hcome
          exact hdone q k hprog
        exact ⟨fun hslot => absurd (.inl hslot) hover, fun hon => absurd (.inr hon) hover⟩

theorem ProbeRun.run_concat (turns : List ProbeTurn) (turn : ProbeTurn) :
    run settings clock hook (turns ++ [turn]) =
      (run settings clock hook turns).turn settings clock hook turn := by
  rw [run, run, List.foldl_append, List.foldl_cons, List.foldl_nil]

/-! ## Runs -/

theorem ProbeRun.granting_run (turns : List ProbeTurn) :
    (run settings clock hook turns).Granting := by
  induction turns using List.reverseRecOn with
  | nil => exact ⟨nofun, rfl, rfl⟩
  | append_singleton turns turn ih =>
    rw [run_concat]
    exact ih.turn turn

/-- A supervisor's probe that runs alone. -/
def Breaking.probe (settings : FalkorCircuitSettings) (clock : Clock)
    (hook : Option OnCircuitOpenedCallback) (ping : Except String ProbeState)
    (running : Except String Bool) (w : Breaking) : Breaking :=
  (JanusGraph.probe.run (ProbeRequest.answer settings clock hook ping running) w).2

/-- The circuit state, `failure_count` and `retry_at` are the same. -/
def FalkorCircuitBreaker.Untouched (b b' : FalkorCircuitBreaker) : Prop :=
  b'.state = b.state ∧ b'.failureCount = b.failureCount ∧ b'.retryAt = b.retryAt

instance (b b' : FalkorCircuitBreaker) : Decidable (b.Untouched b') :=
  inferInstanceAs (Decidable (_ ∧ _ ∧ _))

/-- What a probe that finds the database loading does to the breaker is up to the pidfile: a
process that runs is a success, and a check that raises a failure. -/
theorem Breaking.probe_warmingUp {w : Breaking} (running : Except String Bool)
    (hallowed : (w.allowProbe settings clock hook).1 = true) :
    w.probe settings clock hook (.ok .warmingUp) running =
      match running with
      | .ok true => (w.allowProbe settings clock hook).2.recordSuccess settings clock hook
      | .ok false => (w.allowProbe settings clock hook).2
      | .error _ => (w.allowProbe settings clock hook).2.recordFailure settings clock hook := by
  have hrun : w.probe settings clock hook (.ok .warmingUp) running =
      ((if (w.allowProbe settings clock hook).1 = true then
        (do
          let (alive, warmingUp) ← probeOutcome
          if alive then
            let _ ← await .recordSuccess
          else if !warmingUp then
            let _ ← await .recordFailure
          return alive)
        else return false : Probing Bool).run
          (ProbeRequest.answer settings clock hook (.ok .warmingUp) running)
          (w.allowProbe settings clock hook).2).2 := rfl
  rw [hrun, if_pos hallowed]
  rcases running with error | _ | _ <;> rfl

/-- A failure is always counted. -/
theorem Breaking.failureCount_recordFailure (w : Breaking) :
    (w.recordFailure settings clock hook).breaker.failureCount = w.breaker.failureCount + 1 := by
  rw [recordFailure]
  dsimp only
  split
  · rfl
  · split <;> rfl
  · rfl

/-- A success leaves the breaker alone if it is open, or closed with no failures. -/
theorem Breaking.untouched_recordSuccess_iff {w : Breaking} :
    w.breaker.Untouched (w.recordSuccess settings clock hook).breaker ↔
      w.breaker.state = .opened ∨ w.breaker.state = .closed ∧ w.breaker.failureCount = 0 := by
  rw [FalkorCircuitBreaker.Untouched, recordSuccess]
  split
  · next hstate => simp [transitionTo, hstate]
  · next hstate => simp [hstate, eq_comm]
  · next hstate => simp [hstate]

/-- A probe that is let through meets the breaker closed, or leaves it half open. -/
theorem Breaking.allowProbe_cases {w : Breaking}
    (hallowed : (w.allowProbe settings clock hook).1 = true) :
    w.breaker.state = .closed ∧ (w.allowProbe settings clock hook).2 = w ∨
      w.breaker.state ≠ .closed ∧
        (w.allowProbe settings clock hook).2.breaker.state = .halfOpen := by
  rw [allowProbe] at hallowed ⊢
  split at hallowed
  · next hstate => exact .inl ⟨hstate, rfl⟩
  · next hstate =>
    refine .inr ⟨by simp [hstate], ?_⟩
    dsimp only at hallowed ⊢
    split at hallowed
    · next hdue => rw [if_pos hdue]; rfl
    · cases hallowed
  · next hstate => exact .inr ⟨by simp [hstate], hstate⟩

/-- **A loading database and the breaker, exactly.** A probe whose ping says that the
database is loading leaves the breaker alone if and only if the pidfile check says that no
process runs, or that one does while the breaker is closed and has no failures counted. -/
theorem warming_up_untouched_iff (settings : FalkorCircuitSettings) (clock : Clock)
    (hook : Option OnCircuitOpenedCallback) (calls : List BreakerCall)
    (running : Except String Bool)
    (hallowed : ((Breaking.run settings clock hook calls).allowProbe settings clock hook).1 =
      true) :
    ((Breaking.run settings clock hook calls).allowProbe settings clock hook).2.breaker.Untouched
        ((Breaking.run settings clock hook calls).probe settings clock hook (.ok .warmingUp)
          running).breaker ↔
      running = .ok false ∨ running = .ok true ∧
        (Breaking.run settings clock hook calls).breaker.state = .closed ∧
        (Breaking.run settings clock hook calls).breaker.failureCount = 0 := by
  set w := Breaking.run settings clock hook calls
  rw [Breaking.probe_warmingUp running hallowed]
  rcases running with error | _ | _
  · refine iff_of_false ?_ (by simp)
    rintro ⟨-, hcount, -⟩
    rw [Breaking.failureCount_recordFailure] at hcount
    exact Nat.succ_ne_self _ hcount
  · exact iff_of_true ⟨rfl, rfl, rfl⟩ (.inl rfl)
  · dsimp only
    rw [Breaking.untouched_recordSuccess_iff]
    rcases Breaking.allowProbe_cases hallowed with ⟨hclosed, heq⟩ | ⟨hnot, hhalf⟩
    · simp [heq, hclosed]
    · simp [hhalf, hnot]

/-- A fresh breaker, and a process that runs. -/
theorem warming_up_untouched_fresh :
    ((Breaking.run {} .steady none []).allowProbe {} .steady none).2.breaker.Untouched
      ((Breaking.run {} .steady none []).probe {} .steady none (.ok .warmingUp)
        (.ok true)).breaker :=
  (warming_up_untouched_iff {} .steady none [] (.ok true) rfl).mpr (.inr ⟨rfl, rfl, rfl⟩)

/-- One failure is counted, and the probe of a loading database takes it back because its
process runs. -/
theorem not_warming_up_untouched :
    ¬ ∀ (settings : FalkorCircuitSettings) (clock : Clock) (hook : Option OnCircuitOpenedCallback)
        (calls : List BreakerCall) (running : Except String Bool),
        ((Breaking.run settings clock hook calls).allowProbe settings clock hook).1 = true →
        ((Breaking.run settings clock hook calls).allowProbe settings clock
          hook).2.breaker.Untouched ((Breaking.run settings clock hook calls).probe settings clock
            hook (.ok .warmingUp) running).breaker := by
  intro huntouched
  have hcount := (huntouched {} .steady none [.recordFailure] (.ok true) rfl).2.1
  exact absurd hcount (by decide)

end JanusGraph
