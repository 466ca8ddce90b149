import Mathlib.Data.Rat.Defs
import Mathlib.Algebra.Order.Ring.Rat
import Mathlib.Order.Monotone.Defs
import Mathlib.Tactic.Linarith

/-!
# The circuit breaker

`FalkorCircuitBreaker` of `daemon/circuit_breaker.py`. Each of its methods works under
`_state_lock` without awaiting anything inside, so a run of any number of callers is a
sequence of whole calls. Seconds are exact, and each reading of the monotonic clock is
one of its own: a method that reads it twice may see time pass in between.
-/

namespace JanusGraph

/-- `time.monotonic()`, reading by reading. -/
structure Clock : Type where
  now : ℕ → ℚ
  mono : Monotone now

/-- `CircuitState` -/
inductive CircuitState : Type where
  | closed | opened | halfOpen
  deriving DecidableEq

/-- `FalkorCircuitSettings` -/
structure FalkorCircuitSettings : Type where
  failureThreshold : ℤ := 3
  resetTimeoutSec : ℤ := 60
  halfOpenMaxProbes : ℤ := 1

/-- `CircuitSnapshot` -/
structure CircuitSnapshot : Type where
  state : CircuitState
  failureCount : ℕ
  failureThreshold : ℤ
  resetTimeoutSec : ℤ
  retryAt : Option ℚ
  lastTransitionAt : ℚ

/-- The fields of `FalkorCircuitBreaker`. -/
structure FalkorCircuitBreaker : Type where
  state : CircuitState
  failureCount : ℕ
  retryAt : Option ℚ
  lastTransitionAt : ℚ

/-- `snapshot` -/
def FalkorCircuitBreaker.snapshot (settings : FalkorCircuitSettings) (b : FalkorCircuitBreaker) :
    CircuitSnapshot where
  state := b.state
  failureCount := b.failureCount
  failureThreshold := settings.failureThreshold
  resetTimeoutSec := settings.resetTimeoutSec
  retryAt := b.retryAt
  lastTransitionAt := b.lastTransitionAt

/-- What a call of the `on_open` callback comes to. `raised` is an `Exception`; what ends
the interpreter is none. -/
inductive HookOutcome : Type where
  | returned | coroutine | raised
  deriving DecidableEq

/-- The registered callback: the outcome of its n-th call. -/
abbrev OnCircuitOpenedCallback : Type := ℕ → CircuitSnapshot → HookOutcome

/-- A transition that has taken place, with the calls of the callback it made. -/
structure Transition : Type where
  old : CircuitState
  new : CircuitState
  time : ℚ
  calls : List CircuitSnapshot

/-- A breaker at work. -/
structure Breaking : Type where
  breaker : FalkorCircuitBreaker
  /-- how often the clock has been read -/
  ticks : ℕ
  /-- oldest first -/
  transitions : List Transition

section

variable (settings : FalkorCircuitSettings) (clock : Clock) (hook : Option OnCircuitOpenedCallback)

/-- The callback is called, whatever comes of it. A coroutine is dropped, and a task calls
the callback again for one to await. -/
def OnCircuitOpenedCallback.invoke (cb : OnCircuitOpenedCallback) (before : ℕ)
    (snap : CircuitSnapshot) : List CircuitSnapshot :=
  match cb before snap with
  | .returned => [snap]
  | .raised => [snap]
  | .coroutine => [snap, snap]

/-- The calls of the callback that a transition from `old` to the breaker `b` makes. -/
def Breaking.fire (w : Breaking) (old : CircuitState) (b : FalkorCircuitBreaker) :
    List CircuitSnapshot :=
  match hook with
  | none => []
  | some cb =>
    if old = .closed ∧ b.state = .opened then
      cb.invoke (w.transitions.flatMap Transition.calls).length (b.snapshot settings)
    else []

/-- `_transition_to` -/
def Breaking.transitionTo (new : CircuitState) (w : Breaking) : Breaking :=
  let old := w.breaker.state
  let b := { w.breaker with state := new, lastTransitionAt := clock.now w.ticks }
  { breaker := b
    ticks := w.ticks + 1
    transitions := w.transitions ++ [⟨old, new, clock.now w.ticks, w.fire settings hook old b⟩] }

/-- `allow_probe` -/
def Breaking.allowProbe (w : Breaking) : Bool × Breaking :=
  match w.breaker.state with
  | .closed => (true, w)
  | .opened =>
    let w' := { w with ticks := w.ticks + 1 }
    if w.breaker.retryAt.any fun retryAt => retryAt ≤ clock.now w.ticks then
      (true, w'.transitionTo settings clock hook .halfOpen)
    else (false, w')
  | .halfOpen => (true, { w with ticks := w.ticks + 1 })

/-- `record_success` -/
def Breaking.recordSuccess (w : Breaking) : Breaking :=
  match w.breaker.state with
  | .halfOpen =>
    let w' := w.transitionTo settings clock hook .closed
    { w' with breaker := { w'.breaker with failureCount := 0, retryAt := none } }
  | .closed => { w with breaker := { w.breaker with failureCount := 0 } }
  | .opened => w

/-- `self._retry_at = time.monotonic() + self._settings.reset_timeout_sec`, after a
transition to `OPEN` -/
def Breaking.trip (w : Breaking) : Breaking :=
  let w' := w.transitionTo settings clock hook .opened
  { w' with
    breaker := { w'.breaker with
      retryAt := some (clock.now w'.ticks + settings.resetTimeoutSec) }
    ticks := w'.ticks + 1 }

/-- `record_failure` -/
def Breaking.recordFailure (w : Breaking) : Breaking :=
  let w := { w with breaker := { w.breaker with failureCount := w.breaker.failureCount + 1 } }
  match w.breaker.state with
  | .halfOpen => w.trip settings clock hook
  | .closed =>
    if settings.failureThreshold ≤ (w.breaker.failureCount : ℤ) then w.trip settings clock hook
    else w
  | .opened => w

/-- `acquire_probe_slot` -/
def Breaking.acquireProbeSlot (w : Breaking) : Bool := w.breaker.state = .halfOpen

/-- The calls that come from anywhere. -/
inductive BreakerCall : Type where
  | allowProbe | recordSuccess | recordFailure

/-- A breaker as `__init__` leaves it. -/
def Breaking.init : Breaking where
  breaker :=
    { state := .closed, failureCount := 0, retryAt := none, lastTransitionAt := clock.now 0 }
  ticks := 1
  transitions := []

/-- One call. -/
def Breaking.call (w : Breaking) : BreakerCall → Breaking
  | .allowProbe => (w.allowProbe settings clock hook).2
  | .recordSuccess => w.recordSuccess settings clock hook
  | .recordFailure => w.recordFailure settings clock hook

/-- A run of calls. -/
def Breaking.run (calls : List BreakerCall) : Breaking :=
  calls.foldl (Breaking.call settings clock hook) (.init clock)

end

/-! ## The invariant -/

/-- When `OPEN` was last entered. -/
def Breaking.openedAt (w : Breaking) : Option ℚ :=
  ((w.transitions.filter fun tr => tr.new = .opened).map Transition.time).getLast?

/-- How the three fields go together. -/
structure Breaking.Sound (settings : FalkorCircuitSettings) (clock : Clock) (w : Breaking) :
    Prop where
  closed : w.breaker.state = .closed →
    (w.breaker.failureCount : ℤ) < settings.failureThreshold ∧ w.breaker.retryAt = none
  waiting : w.breaker.state ≠ .closed → ∃ retryAt, w.breaker.retryAt = some retryAt ∧
    ∀ t, w.openedAt = some t → t + settings.resetTimeoutSec ≤ retryAt

/-- The callback returns or raises. -/
def Synchronous (hook : Option OnCircuitOpenedCallback) : Prop :=
  ∀ cb ∈ hook, ∀ n snap, cb n snap ≠ .coroutine

/-- A transition calls the callback once if it is from `CLOSED` to `OPEN`, and never
otherwise. -/
def Transition.Hooked (hook : Option OnCircuitOpenedCallback) (tr : Transition) : Prop :=
  tr.calls.length = if hook.isSome ∧ tr.old = .closed ∧ tr.new = .opened then 1 else 0

section

variable {settings : FalkorCircuitSettings} {clock : Clock} {hook : Option OnCircuitOpenedCallback}
  {w : Breaking}

theorem OnCircuitOpenedCallback.length_invoke {cb : OnCircuitOpenedCallback}
    (hsync : ∀ n snap, cb n snap ≠ .coroutine) (before : ℕ) (snap : CircuitSnapshot) :
    (cb.invoke before snap).length = 1 := by
  rw [invoke]
  rcases houtcome : cb before snap with _ | _ | _
  · rfl
  · exact absurd houtcome (hsync before snap)
  · rfl

/-- The log of a transition. -/
theorem Breaking.hooked_transitionTo (hsync : Synchronous hook) (new : CircuitState)
    (h : ∀ tr ∈ w.transitions, tr.Hooked hook) :
    ∀ tr ∈ (w.transitionTo settings clock hook new).transitions, tr.Hooked hook := by
  intro tr htr
  rcases List.mem_append.mp htr with htr | htr
  · exact h tr htr
  · obtain rfl := List.mem_singleton.mp htr
    rcases hook with _ | cb
    · rfl
    · rw [Transition.Hooked, fire]
      split
      · next hopen =>
        rw [OnCircuitOpenedCallback.length_invoke (hsync cb rfl), if_pos ⟨rfl, hopen⟩]
      · next hopen =>
        rw [if_neg fun hc => hopen hc.2]
        rfl

theorem Breaking.openedAt_transitionTo (new : CircuitState) :
    (w.transitionTo settings clock hook new).openedAt =
      if new = .opened then some (clock.now w.ticks) else w.openedAt := by
  rw [openedAt, transitionTo, List.filter_append]
  by_cases hnew : new = .opened
  · simp [hnew]
  · simp [hnew, openedAt]

/-- A trip leaves a sound breaker. -/
theorem Breaking.sound_trip : (w.trip settings clock hook).Sound settings clock where
  closed hclosed := by cases hclosed
  waiting _ := by
    refine ⟨_, rfl, fun t ht => ?_⟩
    have hopened : (w.trip settings clock hook).openedAt = some (clock.now w.ticks) :=
      (@openedAt_transitionTo settings clock hook w .opened).trans (if_pos rfl)
    obtain rfl := Option.some.inj (hopened.symm.trans ht)
    have hle : clock.now w.ticks ≤ clock.now (w.ticks + 1) := clock.mono (Nat.le_succ _)
    exact add_le_add_left hle _

/-- One call keeps the invariant. -/
theorem Breaking.Sound.call (hthreshold : 1 ≤ settings.failureThreshold)
    (h : w.Sound settings clock) (c : BreakerCall) :
    (w.call settings clock hook c).Sound settings clock := by
  cases c with
  | allowProbe =>
    rw [Breaking.call, allowProbe]
    split
    · exact h
    · next hopened =>
      dsimp only
      split
      · -- HALF_OPEN keeps the time set when OPEN was entered
        obtain ⟨retryAt, hretry, hafter⟩ := h.waiting (by simp [hopened])
        refine ⟨nofun, fun _ => ⟨retryAt, hretry, fun t ht => hafter t ?_⟩⟩
        rwa [openedAt_transitionTo, if_neg nofun] at ht
      · exact ⟨h.closed, h.waiting⟩
    · exact ⟨h.closed, h.waiting⟩
  | recordSuccess =>
    rw [Breaking.call, recordSuccess]
    split
    · exact ⟨fun _ => ⟨hthreshold, rfl⟩, fun hne => absurd rfl hne⟩
    · next hclosed =>
      exact ⟨fun _ => ⟨hthreshold, (h.closed hclosed).2⟩, fun hne => absurd hclosed hne⟩
    · exact h
  | recordFailure =>
    rw [Breaking.call, recordFailure]
    dsimp only
    split
    · exact sound_trip
    · next hclosed =>
      split
      · exact sound_trip
      · next hbelow => exact ⟨fun _ => ⟨not_le.mp hbelow, (h.closed hclosed).2⟩, h.waiting⟩
    · next hopened =>
      refine ⟨fun hclosed => ?_, h.waiting⟩
      rw [hopened] at hclosed
      cases hclosed

/-- One call keeps the law of the callback. -/
theorem Breaking.hooked_call (hsync : Synchronous hook) (h : ∀ tr ∈ w.transitions, tr.Hooked hook)
    (c : BreakerCall) : ∀ tr ∈ (w.call settings clock hook c).transitions, tr.Hooked hook := by
  cases c with
  | allowProbe =>
    rw [Breaking.call, allowProbe]
    split
    · exact h
    · dsimp only
      split
      · exact hooked_transitionTo (w := { w with ticks := w.ticks + 1 }) hsync .halfOpen h
      · exact h
    · exact h
  | recordSuccess =>
    rw [Breaking.call, recordSuccess]
    split
    · exact hooked_transitionTo hsync .closed h
    · exact h
    · exact h
  | recordFailure =>
    have htrip := @hooked_transitionTo settings clock hook
      { w with breaker := { w.breaker with failureCount := w.breaker.failureCount + 1 } }
      hsync .opened h
    rw [Breaking.call, recordFailure]
    dsimp only
    split
    · exact htrip
    · split
      · exact htrip
      · exact h
    · exact h

/-- While it cools down, nothing is probed. -/
theorem Breaking.allowProbe_of_lt (hopened : w.breaker.state = .opened) {retryAt : ℚ}
    (hretry : w.breaker.retryAt = some retryAt) (hlt : clock.now w.ticks < retryAt) :
    (w.allowProbe settings clock hook).1 = false := by
  rw [allowProbe, hopened]
  dsimp only
  rw [if_neg]
  simpa [hretry] using hlt

/-- **The breaker's invariant**, over any run of calls: the fields fit the state, nothing is
probed in `OPEN` before `retry_at`, and the callback is called once for each transition
from `CLOSED` to `OPEN`, and for no other. -/
theorem breaker_invariant (clock : Clock) (hthreshold : 1 ≤ settings.failureThreshold)
    (hsync : Synchronous hook) (calls : List BreakerCall) :
    (Breaking.run settings clock hook calls).Sound settings clock ∧
      (∀ retryAt, (Breaking.run settings clock hook calls).breaker.state = .opened →
        (Breaking.run settings clock hook calls).breaker.retryAt = some retryAt →
        clock.now (Breaking.run settings clock hook calls).ticks < retryAt →
        ((Breaking.run settings clock hook calls).allowProbe settings clock hook).1 = false) ∧
      ∀ tr ∈ (Breaking.run settings clock hook calls).transitions, tr.Hooked hook := by
  have hkept : ∀ (calls : List BreakerCall) (w : Breaking), w.Sound settings clock →
      (∀ tr ∈ w.transitions, tr.Hooked hook) →
      (calls.foldl (Breaking.call settings clock hook) w).Sound settings clock ∧
        ∀ tr ∈ (calls.foldl (Breaking.call settings clock hook) w).transitions,
          tr.Hooked hook := by
    intro calls
    induction calls with
    | nil => exact fun _ hsound hhooked => ⟨hsound, hhooked⟩
    | cons c calls ih =>
      exact fun w hsound hhooked =>
        ih _ (hsound.call hthreshold c) (Breaking.hooked_call hsync hhooked c)
  have hinit : (Breaking.init clock).Sound settings clock :=
    ⟨fun _ => ⟨hthreshold, rfl⟩, fun hne => absurd rfl hne⟩
  obtain ⟨hsound, hhooked⟩ := hkept calls _ hinit (by simp [Breaking.init])
  exact ⟨hsound, fun _ hopened hretry hlt => Breaking.allowProbe_of_lt hopened hretry hlt, hhooked⟩

end

/-- A clock that gains a second with each reading. -/
def Clock.steady : Clock where
  now := fun n => n
  mono := Nat.mono_cast

/-- With a callback that raises, three failures and a probe that comes too early. -/
theorem breaker_invariant_raising :
    (Breaking.run {} .steady (some fun _ _ => .raised)
        [.recordFailure, .recordFailure, .recordFailure, .allowProbe]).Sound {} .steady ∧
      ((Breaking.run {} .steady (some fun _ _ => .raised)
        [.recordFailure, .recordFailure, .recordFailure]).transitions.map fun tr =>
          tr.calls.length) = [1] :=
  ⟨(breaker_invariant .steady (by decide) (fun cb hcb => by
    obtain rfl := Option.some.inj hcb
    exact fun _ _ => nofun) _).1, rfl⟩

end JanusGraph
