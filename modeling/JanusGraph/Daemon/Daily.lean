import JanusGraph.Daemon.CronLoop
import Mathlib.Data.List.Nodup

/-!
# The dream runs once a day

The dream hour is the half hour before 20:00 UTC (02:30 to 03:00 ICT), and the loop looks at the
clock every minute and again after each run. As long as the checks are less than half an hour apart
none of these hours is missed, and `lastRunDate` makes one run of each, unless the loop is started
anew within the hour.
-/

namespace JanusGraph

open Calendar

variable {σ ρ : Type}

/-- Half an hour. -/
def halfHour : ℕ := 1800000000

/-- 20:00 UTC, when the dream hour of the date ends; it began half an hour before. -/
def windowEnd (date : Date) : ℕ := (date.ordinal - 1) * 86400000000 + 72000000000

theorem isDreamTime_iff {now : DateTime} {date : Date} :
    now.date = date ∧ isDreamTime now = true ↔
      now.instant < windowEnd date ∧ windowEnd date ≤ now.instant + halfHour := by
  have hminute := now.minute_lt
  have hhour := now.hour_lt
  have hsecond := now.second_lt
  have hmicrosecond := now.microsecond_lt
  have hpos : 1 ≤ now.date.ordinal := now.date.day_mem.1.trans (Nat.le_add_left _ _)
  have hpos' : 1 ≤ date.ordinal := date.day_mem.1.trans (Nat.le_add_left _ _)
  rw [isDreamTime, windowEnd, halfHour, DateTime.instant, Bool.and_eq_true, decide_eq_true_eq,
    decide_eq_true_eq]
  constructor
  · rintro ⟨rfl, hh, hm⟩
    omega
  · rintro ⟨hbefore, hafter⟩
    have hdate : now.date.ordinal = date.ordinal := by omega
    exact ⟨Date.ordinal_injective hdate, by omega, by omega⟩

/-- A list that begins below `b`, with steps shorter than `w`, has an element within `w` below
`b` if it gets beyond `b`. -/
theorem exists_crossing {b w : ℕ} : ∀ {l : List ℕ} {x : ℕ},
    (x :: l).IsChain (fun s t => t < s + w) → x < b → (∃ y ∈ l, b ≤ y) →
      ∃ z ∈ x :: l, z < b ∧ b ≤ z + w
  | [], _, _, _, ⟨_, hy, _⟩ => by cases hy
  | y :: l, x, hchain, hx, hbeyond => by
    obtain ⟨hstep, hchain⟩ := List.isChain_cons_cons.mp hchain
    by_cases hy : y < b
    · obtain ⟨y', hy', hle⟩ := hbeyond
      have hlater : ∃ y' ∈ l, b ≤ y' := by
        rcases List.mem_cons.mp hy' with rfl | hy'
        · omega
        · exact ⟨y', hy', hle⟩
      obtain ⟨z, hz, h⟩ := exists_crossing hchain hy hlater
      exact ⟨z, List.mem_cons_of_mem _ hz, h⟩
    · exact ⟨x, List.mem_cons_self, hx, by omega⟩

/-- The checks cover the dream hour of the date: they begin before its end and go on beyond it,
and each follows the one before in less than half an hour. -/
structure Covers (date : Date) (checks : List DateTime) : Prop where
  begins : ∃ now, checks.head? = some now ∧ now.instant < windowEnd date
  goesOn : ∃ now ∈ checks, windowEnd date ≤ now.instant
  steps : (checks.map DateTime.instant).IsChain fun s t => t < s + halfHour

/-- One of them is in the hour. -/
theorem Covers.exists_check {date : Date} {checks : List DateTime} (h : Covers date checks) :
    ∃ now ∈ checks, now.date = date ∧ isDreamTime now = true := by
  obtain ⟨now, hhead, hbefore⟩ := h.begins
  obtain ⟨later, hlater, hbeyond⟩ := h.goesOn
  rcases checks with _ | ⟨first, checks⟩
  · cases hhead
  · obtain rfl := Option.some.inj hhead
    have hbeyond' : ∃ t ∈ checks.map DateTime.instant, windowEnd date ≤ t := by
      rcases List.mem_cons.mp hlater with rfl | hlater
      · omega
      · exact ⟨_, List.mem_map_of_mem hlater, hbeyond⟩
    obtain ⟨t, ht, hwindow⟩ := exists_crossing h.steps hbefore hbeyond'
    obtain ⟨check, hcheck, rfl⟩ := List.mem_map.mp (List.map_cons ▸ ht :
      t ∈ (first :: checks).map DateTime.instant)
    exact ⟨check, hcheck, isDreamTime_iff.mpr hwindow⟩

theorem mem_readings {log : List CronEntry} {now : DateTime} :
    now ∈ readings log ↔ ∃ state, .dreamChecked now state ∈ log := by
  rw [readings, List.mem_filterMap]
  constructor
  · rintro ⟨entry, hentry, heq⟩
    cases entry with
    | dreamChecked now' state =>
      obtain rfl := Option.some.inj heq
      exact ⟨state, hentry⟩
    | _ => cases heq
  · rintro ⟨state, hentry⟩
    exact ⟨_, hentry, rfl⟩

/-- On the fifth of January 2026, UTC. -/
def january (hour minute : ℕ) (hhour : hour < 24 := by decide) (hminute : minute < 60 := by decide) :
    DateTime :=
  ⟨⟨2026, 1, 5, by decide, by decide, by decide⟩, hour, minute, 0, 0, hhour, hminute, by decide,
    by decide⟩

/-- A run is started at 19:31 and takes until 19:40, while a sweep fails; then the breaker opens. -/
def dreamNight : List (CronTurn Unit Unit) :=
  [.start, .dreamWakes (january 19 20), .sweepWakes, .dreamWakes (january 19 31),
    .sweepEnds (.error "OperationalError") 1 (january 19 33),
    .dreamEnds (.ok ()) 2 (january 19 40), .dreamWakes (january 19 41), .breaker .recordFailure,
    .breaker .recordFailure, .breaker .recordFailure, .dreamWakes (january 20 5)]

/-- A start within the dream hour makes a second run. -/
example : completedDates (CronRun.run {} .steady none true
    ([.start, .dreamWakes (january 19 31), .dreamEnds (.ok ()) 2 (january 19 40), .stop, .start,
      .dreamWakes (january 19 41), .dreamEnds (.ok ()) 3 (january 19 50)] :
        List (CronTurn Unit Unit))).log = [(january 19 31).date, (january 19 41).date] := rfl

end JanusGraph
