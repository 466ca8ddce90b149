import JanusGraph.Lib.IsoFormat
import JanusGraph.Queue.Exclusive
import JanusGraph.Queue.Rows

/-!
# First in, first out

`claim_next_batch` orders the queue by the texts of `enqueued_at`, and `_iso_now` leaves the
microseconds out when there are none. The order of the texts is that of time all the same
(`isoNow_lt_iff`), and every text in the column is one of `_iso_now`, since every statement that
queues an episode writes it.

Two texts of one length are compared character by character, and the digits of a date stand in
the order of their weight. With microseconds and without them the texts first differ where one
has a `.` and the other a `+`, and `+` comes first, as it should: no microseconds are the
earliest. In the years before 1000 and after 9999 the number of digits of a year changes, hence
`InYears`.
-/

namespace JanusGraph

open Calendar

/-- `_iso_now()` at an instant -/
def isoNow (now : ℕ) : String := isoformat (.ofInstant now)

/-- The clock is in one of the years 1000 to 9999. -/
def InYears (now : ℕ) : Prop :=
  1000 ≤ (DateTime.ofInstant now).date.year ∧ (DateTime.ofInstant now).date.year ≤ 9999

instance (now : ℕ) : Decidable (InYears now) := inferInstanceAs (Decidable (_ ∧ _))

/-- The texts of `_iso_now` are in the order of time. -/
theorem isoNow_lt_iff {t t' : ℕ} (h : InYears t) (h' : InYears t') :
    isoNow t < isoNow t' ↔ t < t' := by
  have hlt := isoformat_lt_iff (Nat.lt_succ_of_le h.2) (Nat.lt_succ_of_le h'.2)
  rwa [DateTime.instant_ofInstant, DateTime.instant_ofInstant] at hlt

example : isoNow 63082324800000000 = "2000-01-01T12:00:00+00:00" ∧
    isoNow 63082324800000001 = "2000-01-01T12:00:00.000001+00:00" := by
  decide +kernel

/-! ## The head of the queue -/

/-- The head of the queue by the texts: `WHERE status = 'queued' ORDER BY enqueued_at ASC
LIMIT ?`. -/
def Db.textHead (db : Db) (rank : String → ℕ) (limit : Option ℤ) : List (String × Episode) :=
  sqlLimit (claimLimit limit) <|
    (db.episodes.rows.filter fun r => r.2.status == .queued).insertionSort fun a b =>
      isoNow a.2.enqueuedAt < isoNow b.2.enqueuedAt ∨
        isoNow a.2.enqueuedAt = isoNow b.2.enqueuedAt ∧ rank a.1 ≤ rank b.1

/-- The time an episode was queued at is one of the clock's. -/
def Episode.QueuedInYears (e : Episode) : Prop := InYears e.enqueuedAt

theorem Db.textHead_eq {db : Db} (h : db.Rows Episode.QueuedInYears) (rank : String → ℕ)
    (limit : Option ℤ) : db.textHead rank limit = db.queueHead rank limit := by
  have hyears : ∀ r ∈ db.episodes.rows.filter (fun r => r.2.status == .queued),
      InYears r.2.enqueuedAt := fun r hr =>
    h r.1 r.2 (Table.mem_rows.mp (List.mem_of_mem_filter hr))
  rw [textHead, queueHead, Table.orderBy]
  congr 1
  refine Table.insertionSort_congr fun a ha b hb => ?_
  have hab := isoNow_lt_iff (hyears a ha) (hyears b hb)
  have hba := isoNow_lt_iff (hyears b hb) (hyears a ha)
  have heq : isoNow a.2.enqueuedAt = isoNow b.2.enqueuedAt ↔
      a.2.enqueuedAt = b.2.enqueuedAt := by
    rw [eq_iff_le_not_lt, eq_iff_le_not_lt, ← not_lt, ← not_lt, hab, hba]
  rw [hab, heq]

/-- No queued episode that is not at the head is earlier than one that is. -/
theorem Db.enqueuedAt_le_of_queueHead {db : Db} {rank : String → ℕ} {limit : Option ℤ}
    {r : String × Episode} (hr : r ∈ db.queueHead rank limit) {id : String} {e : Episode}
    (he : db.episodes.get? id = some e) (hqueued : e.status = .queued)
    (hleft : id ∉ (db.queueHead rank limit).map Prod.fst) : r.2.enqueuedAt ≤ e.enqueuedAt := by
  have hsorted := Table.pairwise_orderBy (fun r : String × Episode => r.2.enqueuedAt) rank
    (db.episodes.rows.filter fun r => r.2.status == .queued)
  have hmem : (id, e) ∈ Table.orderBy (fun r : String × Episode => r.2.enqueuedAt) rank
      (db.episodes.rows.filter fun r => r.2.status == .queued) :=
    Table.mem_orderBy.mpr (List.mem_filter.mpr ⟨Table.mem_rows.mpr he, by simp [hqueued]⟩)
  have hnot : (id, e) ∉ db.queueHead rank limit := fun h => hleft (List.mem_map_of_mem h)
  rw [queueHead, sqlLimit] at hr hnot
  split at hr
  · next hneg =>
    rw [if_pos hneg] at hnot
    exact absurd hmem hnot
  · next hpos =>
    rw [if_neg hpos] at hnot
    rw [← List.take_append_drop (claimLimit limit).toNat (Table.orderBy _ rank _)] at hsorted hmem
    have hdrop := (List.mem_append.mp hmem).resolve_left hnot
    exact (List.pairwise_append.mp hsorted).2.2 r hr (id, e) hdrop

/-! ## Runs -/

/-- Every row is queued at a time of its operation. -/
theorem rowInvariant_queuedInYears {sha : Sha256} {now : ℕ} (h : InYears now) :
    RowInvariant sha now Episode.QueuedInYears where
  inserted _ _ _ _ _ _ _ := h
  claimed _ he := he
  updated u e hu he := by
    subst hu
    cases u with
    | requeueStuck | replayBatch => exact h
    | requeue now extra => cases extra <;> exact h
    | done | failed | aborted | checkpoint | skipReaped | skipDuplicate => exact he

/-- What a claim leaves queued, it has not selected. -/
theorem Step.queued_of_claim {sha : Sha256} {db : Db} {env : Env} {limit : Option ℤ}
    (haccepted : db.rejectsClaim ((db.queueHead env.rank limit).map Prod.fst) env.now = false)
    {id : String} {e : Episode}
    (he : ((⟨env, .claimNextBatch limit⟩ : Step).exec sha db).episodes.get? id = some e)
    (hqueued : e.status = .queued) :
    db.episodes.get? id = some e ∧ id ∉ (db.queueHead env.rank limit).map Prod.fst := by
  rw [exec_claimNextBatch] at he
  split at he
  · next hempty =>
    rw [List.isEmpty_iff.mp hempty]
    exact ⟨he, List.not_mem_nil⟩
  · rw [Db.apply_claim, if_neg (by simp [haccepted]), Db.get?_claim] at he
    obtain ⟨e', he', heq⟩ := Option.map_eq_some_iff.mp he
    split at heq
    · rw [← heq] at hqueued
      cases hqueued
    · next hnot => exact ⟨heq ▸ he', hnot⟩

/-- **First in, first out.** In the years of the clock the texts of `_iso_now` are in the
order of time. So, after any run, the rows that a claim selects by the texts are those that
it selects by the times, and none of the episodes that it returns was queued later than one
that it leaves. A text without microseconds is shorter, and its `+` sorts before the `.` of
the others. -/
theorem claimNextBatch_fifo (sha : Sha256) {steps : List Step}
    (hclock : ∀ st ∈ steps, InYears st.env.now) (env : Env) (limit : Option ℤ) :
    (∀ t t', InYears t → InYears t' → (isoNow t < isoNow t' ↔ t < t')) ∧
    (runSteps sha Db.empty steps).textHead env.rank limit =
      (runSteps sha Db.empty steps).queueHead env.rank limit ∧
    ∀ records, (⟨env, .claimNextBatch limit⟩ : Step).result sha (runSteps sha Db.empty steps) =
        .ok (.records records) →
      ∀ b ∈ records, ∀ id a, ((⟨env, .claimNextBatch limit⟩ : Step).exec sha
          (runSteps sha Db.empty steps)).episodes.get? id = some a → a.status = .queued →
        ¬ a.enqueuedAt < b.enqueuedAt := by
  have hempty : Db.empty.Rows Episode.QueuedInYears := fun _ _ he => by cases he
  have hrows : (runSteps sha Db.empty steps).Rows Episode.QueuedInYears :=
    runSteps_rows (fun st hst => rowInvariant_queuedInYears (hclock st hst)) hempty
  refine ⟨fun t t' h h' => isoNow_lt_iff h h', Db.textHead_eq hrows env.rank limit, ?_⟩
  intro records hresult b hb id a ha hqueued
  obtain ⟨rfl, haccepted⟩ := Step.records_eq hresult
  obtain ⟨r, hr, rfl⟩ := List.mem_map.mp hb
  obtain ⟨hbefore, hleft⟩ := Step.queued_of_claim haccepted ha hqueued
  exact not_lt.mpr (Db.enqueuedAt_le_of_queueHead hr hbefore hqueued hleft)

/-- Two episodes are queued, one at noon and one a microsecond later. -/
def queuedAtNoon : List Step :=
  [⟨.at 63082324800000001, .enqueue { content := "d", episodeId := some "late", mode := .off }⟩,
    ⟨.at 63082324800000000, .enqueue { content := "c", episodeId := some "early", mode := .off }⟩]

theorem claimNextBatch_fifo_noon :
    ∃ records, (⟨.at 63082324800000002, .claimNextBatch (some 1)⟩ : Step).result .plain
        (runSteps .plain Db.empty queuedAtNoon) = .ok (.records records) ∧
      records.map EpisodeRecord.id = ["early"] ∧
      ∀ b ∈ records, ∀ id a, ((⟨.at 63082324800000002, .claimNextBatch (some 1)⟩ : Step).exec .plain
          (runSteps .plain Db.empty queuedAtNoon)).episodes.get? id = some a →
        a.status = .queued → ¬ a.enqueuedAt < b.enqueuedAt :=
  ⟨_, rfl, by decide +kernel,
    (claimNextBatch_fifo .plain (by decide +kernel) (.at 63082324800000002) (some 1)).2.2 _ rfl⟩

end JanusGraph
