import JanusGraph.Queue.Transition
import Mathlib.Data.List.Infix

/-!
# Whom the retry policy refuses

One retry policy is asked on three paths: `reap_failed_or_aborted`, `replay_dlq_batch` and
`replay_dlq_episode`. All three join the clauses of `_policy_where_clause` with `AND`, which
is right for a denylist; of an allowlist it asks every code, not one of them.

`dlq_refusal_reason` asks the policy a fourth time, in Python, to tell an operator why
`replay_dlq_episode` has refused a row. It knows of no refusal by an allowlist, and its
lower case is not SQLite's.

* **The three paths.** Each selects by conditions of its own (`reaperAsks`, `batchAsks`) and
  appends the clauses of the policy; the limits leave room for the row. What is left is whether
  the clauses say what the policy promises, which they do for a denylist, and for an allowlist
  if the text has all of its codes or none (`policyWhereClause_admits_iff`).
* **The explanation.** `RetryPolicy.explained_iff` compares two evaluations of the policy, in SQL
  and in Python, for any lower case that Python may have (`PyText`).

`RetryPolicy.Admits` is the promise: what an allowlist and a denylist are for.
-/

namespace JanusGraph

open Script

/-! ## What the policy promises -/

theorem instr_iff {text part : List Char} : instr text part = true ↔ part <:+: text := by
  rw [instr, List.any_eq_true, List.infix_iff_prefix_suffix]
  constructor
  · rintro ⟨t, ht, hpart⟩
    exact ⟨t, List.isPrefixOf_iff_prefix.mp hpart, (List.mem_tails t text).mp ht⟩
  · rintro ⟨t, hpart, ht⟩
    exact ⟨t, (List.mem_tails t text).mpr ht, List.isPrefixOf_iff_prefix.mpr hpart⟩

/-- The code stands in the text, up to the case of ASCII letters. -/
theorem carries_iff {error code : String} :
    carries error code = true ↔ sqlLower code <:+: sqlLower error :=
  instr_iff

/-- The policy lets a row with this error text through: an allowlist asks for one of its
codes, a denylist for none, and a row without a text passes. -/
def RetryPolicy.Admits (policy : RetryPolicy) : Option String → Prop
  | none => True
  | some text =>
    (policy.allowedErrorCodes ≠ [] ∧
        ∃ code ∈ policy.allowedErrorCodes, sqlLower code <:+: sqlLower text) ∨
      policy.allowedErrorCodes = [] ∧
        ∀ code ∈ policy.permanentErrorCodes, ¬ sqlLower code <:+: sqlLower text

/-- The text has all codes of the allowlist, or none of them. -/
def RetryPolicy.Uniform (policy : RetryPolicy) (error : Option String) : Prop :=
  ∀ text, error = some text →
    (∀ code ∈ policy.allowedErrorCodes, sqlLower code <:+: sqlLower text) ∨
      ∀ code ∈ policy.allowedErrorCodes, ¬ sqlLower code <:+: sqlLower text

section

variable {policy : RetryPolicy} {error : Option String} {text : String}

theorem policyWhereClause_of_denylist (h : policy.allowedErrorCodes = []) :
    policyWhereClause policy (some text) = true ↔
      ∀ code ∈ policy.permanentErrorCodes, ¬ sqlLower code <:+: sqlLower text := by
  rw [policyWhereClause, RetryPolicy.codes, h]
  simp [← Bool.not_eq_true, carries_iff]

theorem policyWhereClause_of_allowlist (h : policy.allowedErrorCodes ≠ []) :
    policyWhereClause policy (some text) = true ↔
      ∀ code ∈ policy.allowedErrorCodes, sqlLower code <:+: sqlLower text := by
  have hne : policy.allowedErrorCodes.isEmpty = false := by simpa using h
  rw [policyWhereClause, RetryPolicy.codes, hne]
  simp [carries_iff]

/-- **The clauses and the promise.** They agree exactly for the uniform texts: a denylist is
a conjunction, and so is what the clauses make of an allowlist, of which one code should do.
-/
theorem policyWhereClause_admits_iff :
    (policyWhereClause policy error = true ↔ policy.Admits error) ↔ policy.Uniform error := by
  rcases error with _ | text
  · exact iff_of_true (iff_of_true rfl trivial) nofun
  by_cases hallowed : policy.allowedErrorCodes = []
  · rw [policyWhereClause_of_denylist hallowed]
    refine iff_of_true ?_ fun _ _ => .inl fun code hcode => ?_
    · simp [RetryPolicy.Admits, hallowed]
    · rw [hallowed] at hcode
      cases hcode
  · rw [policyWhereClause_of_allowlist hallowed]
    have hadmits : policy.Admits (some text) ↔
        ∃ code ∈ policy.allowedErrorCodes, sqlLower code <:+: sqlLower text := by
      simp [RetryPolicy.Admits, hallowed]
    rw [hadmits]
    constructor
    · rintro hiff _ ⟨⟩
      by_cases hall : ∀ code ∈ policy.allowedErrorCodes, sqlLower code <:+: sqlLower text
      · exact .inl hall
      · exact .inr fun code hcode hin => hall (hiff.mpr ⟨code, hcode, hin⟩)
    · intro huniform
      obtain ⟨code, hcode⟩ := List.exists_mem_of_ne_nil _ hallowed
      refine ⟨fun hall => ⟨code, hcode, hall code hcode⟩, ?_⟩
      rintro ⟨code', hcode', hin⟩
      exact (huniform text rfl).resolve_right fun hnone => hnone code' hcode' hin

end

/-! ## The three paths -/

/-- What the reaper asks of a row besides the policy. -/
def reaperAsks (policy : RetryPolicy) (e : Episode) (dl : Option DeadLetter) : Bool :=
  (e.status == .failed || e.status == .aborted) && underCeiling policy e.attemptCount &&
    !(e.status == .failed && dl.any DeadLetter.isOpen)

/-- What the batch replay asks of a row besides the policy. -/
def batchAsks (classes : List String) (minAgeSec : ℤ) (now : ℕ) (d : DeadLetter) : Bool :=
  d.isOpen && matchesClasses classes d.lastError && oldEnough minAgeSec now d.failedAt

theorem reapEligible_eq (policy : RetryPolicy) (e : Episode) (dl : Option DeadLetter) :
    reapEligible policy e dl = (reaperAsks policy e dl && policyWhereClause policy e.lastError) := by
  rw [reapEligible, reaperAsks]
  ac_rfl

/-- A limit that is no limit. -/
theorem sqlLimit_of_length_le {α : Type} {n : ℤ} {rows : List α} (h : (rows.length : ℤ) ≤ n) :
    sqlLimit n rows = rows := by
  rw [sqlLimit, if_neg (by omega), List.take_of_length_le (by omega)]

/-- With room for all rows, those that meet the condition are selected. -/
theorem mem_selected_iff {ρ : Type} {t : Table String ρ} {p : String × ρ → Bool}
    {key : String × ρ → ℕ} {rank : String → ℕ} {n : ℤ} {id : String} {r : ρ}
    (hn : (t.rows.length : ℤ) ≤ n) (hr : t.get? id = some r) :
    (id, r) ∈ sqlLimit n (Table.orderBy key rank (t.rows.filter p)) ↔ p (id, r) = true := by
  have hlen : ((Table.orderBy key rank (t.rows.filter p)).length : ℤ) ≤ n := by
    rw [(Table.orderBy_perm _ _ _).length_eq]
    exact le_trans (Int.ofNat_le.mpr (List.length_filter_le _ _)) hn
  rw [sqlLimit_of_length_le hlen, Table.mem_orderBy, List.mem_filter]
  exact and_iff_right (Table.mem_rows.mpr hr)

/-- What `replay_dlq_episode` finds out about the policy. -/
theorem fst_replayAdmitted {db : Db} {id : String} {d : DeadLetter}
    (hd : db.deadLetter.get? id = some d) (policy : RetryPolicy) :
    (alone (replayAdmitted id policy) db).1 = .ok (policyWhereClause policy (some d.lastError)) :=
  congrArg Prod.fst (run_replayAdmitted id policy (c := Conn.idle db) hd)

/-- **One policy on three paths, exactly.** A row that is admitted as far as the rest goes is
admitted by each path if and only if the policy admits its error text, exactly when that text
has all codes of the allowlist or none. The clauses are joined with `AND`, which asks an
allowlist for all of its codes at once. -/
theorem policy_paths_iff (policy : RetryPolicy) (db : Db) (env : Env) (id : String) (limit : ℤ) :
    (∀ e, db.episodes.get? id = some e → (db.episodes.rows.length : ℤ) ≤ limit →
      reaperAsks policy e (db.deadLetter.get? id) = true →
      (((id, e) ∈ db.reapable env.rank policy limit ↔ policy.Admits e.lastError) ↔
        policy.Uniform e.lastError)) ∧
    (∀ d classes minAgeSec, db.deadLetter.get? id = some d →
      (db.deadLetter.rows.length : ℤ) ≤ limit → batchAsks classes minAgeSec env.now d = true →
      (((id, d) ∈ db.replayable env policy classes minAgeSec limit ↔
          policy.Admits (some d.lastError)) ↔
        policy.Uniform (some d.lastError))) ∧
    ∀ d, db.deadLetter.get? id = some d →
      (((alone (replayAdmitted id policy) db).1 = .ok true ↔ policy.Admits (some d.lastError)) ↔
        policy.Uniform (some d.lastError)) := by
  refine ⟨fun e he hlimit hasks => ?_, fun d classes minAgeSec hd hlimit hasks => ?_,
    fun d hd => ?_⟩
  · rw [Db.reapable, mem_selected_iff hlimit he, reapEligible_eq, hasks, Bool.true_and]
    exact policyWhereClause_admits_iff
  · rw [batchAsks] at hasks
    rw [Db.replayable, mem_selected_iff hlimit hd, replayEligible, hasks, Bool.true_and]
    exact policyWhereClause_admits_iff
  · rw [fst_replayAdmitted hd, Except.ok.injEq]
    exact policyWhereClause_admits_iff

/-- An episode that has failed with the error. -/
def failedWith (error : String) : Db :=
  runSteps .plain Db.empty
    [⟨.at 1, .enqueue { content := "c", episodeId := some "e", mode := .off }⟩,
      ⟨.at 2, .markFailed "e" error⟩]

/-- The row of that episode. -/
def failedRow (error : String) : Episode :=
  { newEpisode (Payload.dumps ⟨"c", "graphiti", "ep_e", "agent_interaction"⟩) 1 none none
      (some "#c|graphiti|agent_interaction") .off with
    status := .failed
    attemptCount := 1
    consecutiveFailures := 1
    lastError := some error
    updatedAt := 2 }

/-- An allowlist of one code, and an error with it. -/
theorem policy_paths_iff_one :
    ("e", failedRow "Error code: 500") ∈ (failedWith "Error code: 500").reapable (fun _ => 0)
        { allowedErrorCodes := ["error code: 500"] } 24 ↔
      RetryPolicy.Admits { allowedErrorCodes := ["error code: 500"] } (some "Error code: 500") :=
  ((policy_paths_iff { allowedErrorCodes := ["error code: 500"] } (failedWith "Error code: 500")
    (.at 3) "e" 24).1 (failedRow "Error code: 500") rfl (by decide) (by decide)).mpr (by
      rintro _ ⟨⟩
      exact .inl (by decide))

/-- With two codes on the allowlist, an error that has one of them stays where it is. -/
theorem not_policy_paths :
    ¬ ∀ (policy : RetryPolicy) (db : Db) (env : Env) (id : String) (limit : ℤ) (e : Episode),
        db.episodes.get? id = some e → (db.episodes.rows.length : ℤ) ≤ limit →
        reaperAsks policy e (db.deadLetter.get? id) = true →
        ((id, e) ∈ db.reapable env.rank policy limit ↔ policy.Admits e.lastError) := by
  intro hiff
  have hmem := (hiff { allowedErrorCodes := ["Error code: 500", "Timeout"] }
    (failedWith "Error code: 500") (.at 3) "e" 24 (failedRow "Error code: 500") rfl (by decide)
    (by decide)).mpr (.inl ⟨nofun, "Error code: 500", by decide, by decide⟩)
  exact absurd (Db.mem_reapable hmem).2 (by decide)

/-! ## The explanation of a refusal -/

/-- What the explanation takes from Python. -/
structure PyText : Type where
  /-- `s.lower()` -/
  lower : String → String
  /-- `repr(s)` -/
  repr : String → String

/-- `code.lower() in last_error.lower()` -/
def PyText.holds (py : PyText) (error code : String) : Bool :=
  instr (py.lower error).toList (py.lower code).toList

/-- The text for a code that was matched. -/
def refusalText (py : PyText) (code error : String) : String :=
  "refused by the shared retry policy: the stored error carries the permanent code " ++
    py.repr code ++ " (" ++ String.ofList (error.toList.take 160) ++ "). This is an upstream " ++
    "fault, not a transient one — retrying it cannot succeed."

/-- What the explanation says of a row with this error text. -/
def RetryPolicy.refusalReason (policy : RetryPolicy) (py : PyText) (error : String) :
    Option String :=
  if !policy.allowedErrorCodes.isEmpty then
    -- whether an allowed code is found or not, nothing is said
    none
  else
    match policy.permanentErrorCodes.find? (py.holds error) with
    | none => none
    | some code =>
      -- `if matched`: the empty code is not told
      if code = "" then none else some (refusalText py code error)

/-- `EpisodeQueue.dlq_refusal_reason` -/
def dlqRefusalReason (py : PyText) (id : String) (policy : Option RetryPolicy) :
    Sql (Option String) := do
  let row ← Script.withConn do
    let db ← Script.select
    return db.deadLetter.get? id
  match row with
  | none => return none
  | some d => return (policy.getD {}).refusalReason py d.lastError

/-- The reply of `retry_dlq_episode`. -/
inductive RetryReply : Type where
  | requeued
  | refusedByPolicy (message : String)
  | notFound
  deriving DecidableEq

/-- `retry_dlq_episode` of `mcp/server.py` -/
def retryDlqEpisode (py : PyText) (env : Env) (id : String) (policy : RetryPolicy) :
    Sql RetryReply := do
  if ← replayDlqEpisode env id (some policy) then
    return .requeued
  else
    match ← dlqRefusalReason py id (some policy) with
    | none => return .notFound
    | some message => if message = "" then return .notFound else return .refusedByPolicy message

/-- When the two evaluations of the policy agree on an error text. Under an allowlist, it has
all of the codes. Under a denylist, it has no code, with the lower case of SQLite or of
Python; or it has one with that of SQLite, and the first that it has with that of Python is
not empty. -/
def RetryPolicy.Explained (policy : RetryPolicy) (py : PyText) (error : String) : Prop :=
  (policy.allowedErrorCodes ≠ [] → ∀ code ∈ policy.allowedErrorCodes, carries error code = true) ∧
    (policy.allowedErrorCodes = [] →
      (∀ code ∈ policy.permanentErrorCodes, carries error code = false ∧
        py.holds error code = false) ∨
      (∃ code ∈ policy.permanentErrorCodes, carries error code = true) ∧
        ∃ code, policy.permanentErrorCodes.find? (py.holds error) = some code ∧ code ≠ "")

section

variable {py : PyText} {policy : RetryPolicy} {error : String} {db : Db} {id : String}
  {d : DeadLetter}

theorem carries_empty (error : String) : carries error "" = true :=
  carries_iff.mpr List.nil_infix

theorem RetryPolicy.isSome_refusalReason_iff (hallowed : policy.allowedErrorCodes = []) :
    (policy.refusalReason py error).isSome = true ↔
      ∃ code, policy.permanentErrorCodes.find? (py.holds error) = some code ∧ code ≠ "" := by
  rw [refusalReason, hallowed]
  rcases policy.permanentErrorCodes.find? (py.holds error) with _ | code
  · simp
  · by_cases hcode : code = "" <;> simp [hcode]

/-- **The two evaluations.** A refusal by the policy is explained, and nothing else is, in
the case of the two. The two differ in the lower case of letters outside of ASCII, and in
everything an allowlist refuses. -/
theorem RetryPolicy.explained_iff :
    (policyWhereClause policy (some error) = false ↔
      (policy.refusalReason py error).isSome = true) ↔ policy.Explained py error := by
  by_cases hallowed : policy.allowedErrorCodes = []
  · rw [isSome_refusalReason_iff hallowed, ← Bool.not_eq_true, policyWhereClause_of_denylist hallowed,
      Explained]
    simp only [hallowed, ne_eq, not_true_eq_false, false_implies, true_and, true_implies]
    by_cases hcarried : ∃ code ∈ policy.permanentErrorCodes, carries error code = true
    · have hrefused : ¬ ∀ code ∈ policy.permanentErrorCodes,
          ¬ sqlLower code <:+: sqlLower error := by
        obtain ⟨code, hcode, hcarries⟩ := hcarried
        exact fun hnone => hnone code hcode (carries_iff.mp hcarries)
      rw [iff_true_left hrefused]
      constructor
      · exact fun hfound => .inr ⟨hcarried, hfound⟩
      · rintro (hnone | ⟨-, hfound⟩)
        · obtain ⟨code, hcode, hcarries⟩ := hcarried
          rw [(hnone code hcode).1] at hcarries
          cases hcarries
        · exact hfound
    · have hadmitted : ∀ code ∈ policy.permanentErrorCodes,
          ¬ sqlLower code <:+: sqlLower error :=
        fun code hcode hin => hcarried ⟨code, hcode, carries_iff.mpr hin⟩
      rw [iff_false_left (not_not.mpr hadmitted)]
      constructor
      · intro hnot
        refine .inl fun code hcode => ⟨?_, ?_⟩
        · exact Bool.eq_false_iff.mpr fun hcarries => hcarried ⟨code, hcode, hcarries⟩
        · rcases hfind : policy.permanentErrorCodes.find? (py.holds error) with _ | first
          · exact Bool.eq_false_iff.mpr (List.find?_eq_none.mp hfind code hcode)
          · -- an empty code would be carried
            refine absurd ⟨first, hfind, ?_⟩ hnot
            rintro rfl
            exact hcarried ⟨"", List.mem_of_find?_eq_some hfind, carries_empty error⟩
      · rintro (hnone | ⟨hcarries, -⟩)
        · rintro ⟨code, hfind, -⟩
          have hholds := List.find?_some hfind
          rw [(hnone code (List.mem_of_find?_eq_some hfind)).2] at hholds
          cases hholds
        · exact absurd hcarries hcarried
  · have hreason : policy.refusalReason py error = none := by
      rw [refusalReason, if_pos (by simpa using hallowed)]
    rw [hreason, ← Bool.not_eq_true, policyWhereClause_of_allowlist hallowed, Explained]
    simp [hallowed, carries_iff]

theorem fst_dlqRefusalReason (hd : db.deadLetter.get? id = some d) (policy : Option RetryPolicy) :
    alone (dlqRefusalReason py id policy) db =
      (.ok ((policy.getD {}).refusalReason py d.lastError), Conn.idle db) := by
  simp [alone, dlqRefusalReason, withConn, Prog.run_bind, Prog.run_attempt, hd]

/-- **A refusal and its explanation, exactly.** `replay_dlq_episode` refuses a dead letter
because of the policy if and only if `dlq_refusal_reason` has a text for it, exactly when the
error text is one that the two evaluations of the policy agree on. The explanation returns
nothing under an allowlist, and for a denylist it compares in Python what the query has
compared in SQL. -/
theorem refusal_explained_iff (py : PyText) (policy : RetryPolicy) (db : Db) (id : String)
    (d : DeadLetter) (hd : db.deadLetter.get? id = some d) :
    ((alone (replayAdmitted id policy) db).1 = .ok false ↔
        ∃ text, (alone (dlqRefusalReason py id (some policy)) db).1 = .ok (some text)) ↔
      policy.Explained py d.lastError := by
  rw [fst_replayAdmitted hd, fst_dlqRefusalReason hd, Except.ok.injEq]
  simp only [Option.getD_some, Except.ok.injEq, ← Option.isSome_iff_exists]
  exact RetryPolicy.explained_iff

/-- What `replay_dlq_episode` returns. -/
theorem fst_replayDlqEpisode (env : Env) (hd : db.deadLetter.get? id = some d)
    (policy : RetryPolicy) :
    (alone (replayDlqEpisode env id (some policy)) db).1 =
      .ok (policyWhereClause policy (some d.lastError) &&
        !db.rejects id (.requeue env.now .replay)) := by
  have hadmitted := run_replayAdmitted id policy (c := Conn.idle db) hd
  have hrun := run_requeueGuarded_one env.now .replay id db
  simp only [alone] at hrun
  rcases hpolicy : policyWhereClause policy (some d.lastError) with _ | _
  · simp [alone, replayDlqEpisode, withConn, Prog.run_bind, Prog.run_attempt, hd, hadmitted,
      hpolicy]
  · by_cases hrejects : db.rejects id (.requeue env.now .replay) <;>
      simp [alone, replayDlqEpisode, withConn, Prog.run_bind, Prog.run_attempt, hd, hadmitted,
        hpolicy, hrun, hrejects, run_execute, Write.exec]

theorem append_ne_empty {s : String} (t : String) (h : s ≠ "") : s ++ t ≠ "" :=
  fun hempty => h (String.append_eq_empty_iff.mp hempty).1

theorem refusalText_ne (py : PyText) (code error : String) : refusalText py code error ≠ "" := by
  unfold refusalText
  iterate 5 refine append_ne_empty _ ?_
  exact nofun

theorem RetryPolicy.refusalReason_ne (policy : RetryPolicy) (py : PyText) (error : String) :
    policy.refusalReason py error ≠ some "" := by
  rw [refusalReason]
  split
  · exact nofun
  · split
    · exact nofun
    · split
      · exact nofun
      · exact fun hempty => refusalText_ne py _ error (Option.some.inj hempty)

/-- Where the two evaluations agree, the tool tells a refusal by the policy from everything
else. -/
theorem retryDlqEpisode_refused_iff (env : Env) (hd : db.deadLetter.get? id = some d)
    (hexplained : policy.Explained py d.lastError) :
    (∃ message, (alone (retryDlqEpisode py env id policy) db).1 = .ok (.refusedByPolicy message)) ↔
      (alone (replayAdmitted id policy) db).1 = .ok false := by
  have hagree := RetryPolicy.explained_iff.mpr hexplained
  have hreplay := fst_replayDlqEpisode env hd policy
  have hafter := exec_replayDlqEpisode env id (some policy) db
  have hrun : alone (replayDlqEpisode env id (some policy)) db =
      (.ok (policyWhereClause policy (some d.lastError) &&
        !db.rejects id (.requeue env.now .replay)),
      Conn.idle (db.replayDlqEpisode id policy env.now)) := Prod.ext hreplay hafter
  have hreply : alone (retryDlqEpisode py env id policy) db = _ := Prog.run_bind_ok hrun
  rw [fst_replayAdmitted hd, Except.ok.injEq, hreply]
  by_cases hsuccess : (policyWhereClause policy (some d.lastError) &&
      !db.rejects id (.requeue env.now .replay)) = true
  · refine iff_of_false ?_ ?_
    · rw [hsuccess]
      rintro ⟨message, hmessage⟩
      cases hmessage
    · rw [(Bool.and_eq_true_iff.mp hsuccess).1]
      exact nofun
  · -- without success the database is as it was, and the reason is that of the row
    have hsame : db.replayDlqEpisode id policy env.now = db := by
      rw [Db.replayDlqEpisode, hd]
      dsimp only
      rw [if_neg]
      rintro ⟨hadmitted, hrejects⟩
      rw [Db.replayAdmitted, hd, Option.any_some] at hadmitted
      exact hsuccess (by simp [hadmitted, hrejects])
    have hreason : alone (dlqRefusalReason py id (some policy)) db =
        (.ok (policy.refusalReason py d.lastError), Conn.idle db) := fst_dlqRefusalReason hd _
    rw [Bool.not_eq_true] at hsuccess
    rw [hsuccess, hsame, if_neg Bool.false_ne_true]
    have htext := policy.refusalReason_ne py d.lastError
    rcases hfound : policy.refusalReason py d.lastError with _ | message
    · rw [hfound] at hagree hreason
      refine iff_of_false ?_ fun hrefused => absurd (hagree.mp hrefused) (by simp)
      rintro ⟨message, hmessage⟩
      rw [Prog.run_bind_ok hreason] at hmessage
      cases hmessage
    · rw [hfound] at hagree hreason
      refine iff_of_true ⟨message, ?_⟩ (hagree.mpr rfl)
      rw [Prog.run_bind_ok hreason]
      have hne : message ≠ "" := fun hempty => htext (hfound.trans (congrArg some hempty))
      simp [hne]

end

/-- Lower case and quotes for plain ASCII. -/
def PyText.ascii : PyText where
  lower := fun s => String.ofList (s.toList.map Char.toLower)
  repr := fun s => "'" ++ s ++ "'"

/-- A queue with one dead letter. -/
def deadWith (error : String) : Db :=
  runSteps .plain Db.empty
    [⟨.at 1, .enqueue { content := "c", episodeId := some "e", mode := .off }⟩,
      ⟨.at 2, .markAborted "e" error⟩]

/-- That dead letter. -/
def deadRow (error : String) : DeadLetter :=
  newDeadLetter (Payload.dumps ⟨"c", "graphiti", "ep_e", "agent_interaction"⟩) error 1 2

/-- The default policy, and a code of its denylist. -/
theorem refusal_explained_iff_default :
    (alone (replayAdmitted "e" {}) (deadWith "Error code: 404")).1 = .ok false ↔
      ∃ text, (alone (dlqRefusalReason .ascii "e" (some {})) (deadWith "Error code: 404")).1 =
        .ok (some text) :=
  (refusal_explained_iff .ascii {} (deadWith "Error code: 404") "e" (deadRow "Error code: 404")
    rfl).mpr ⟨fun hne => absurd rfl hne, fun _ => .inr ⟨by decide, "Error code: 404", by decide,
      by decide⟩⟩

/-- An allowlist refuses without an explanation. -/
theorem not_refusal_explained :
    ¬ ∀ (py : PyText) (policy : RetryPolicy) (db : Db) (id : String) (d : DeadLetter),
        db.deadLetter.get? id = some d →
        ((alone (replayAdmitted id policy) db).1 = .ok false ↔
          ∃ text, (alone (dlqRefusalReason py id (some policy)) db).1 = .ok (some text)) := by
  intro hiff
  obtain ⟨text, htext⟩ := (hiff .ascii { allowedErrorCodes := ["Error code: 500"] }
    (deadWith "Error code: 404") "e" (deadRow "Error code: 404") rfl).mp rfl
  cases htext

end JanusGraph
