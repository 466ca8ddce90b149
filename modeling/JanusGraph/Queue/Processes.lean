import JanusGraph.Lib.Work
import JanusGraph.Queue.Effect

/-!
# Processes that share the queue

The daemon, the CLI and the MCP servers open the same database file, each with
locks of its own only, so that any schedule of their statements can happen. What
every operation does among the others is stated in the terms of `Script.Does`: the
statements it sends, with the databases they meet, and what it returns.

A schedule names sessions and lets one of them run its next block, which is a statement outside
a transaction or a whole transaction: SQLite serialises writers, so that nothing smaller can
interleave. A session that is never named again has died. Only the claim is stated here
(`does_claimNextBatch`), for any invariant that its update keeps: the races of claims are told
without the index, and the discipline of the index with it.
-/

namespace JanusGraph

open Script

/-- The operations running, and run, on one database. -/
abbrev Processes : Type := Pool Step Db Write IntegrityError QueueError OpResult

/-- The processes after a schedule. -/
def runSchedule (sha : Sha256) (db : Db) (schedule : List (Label Step)) : Processes :=
  Pool.exec Write.exec (Step.script sha) db schedule

variable {I : Db → Prop}

/-! ## Claim -/

/-- What `claim_next_batch` sends and returns: nothing, or one update, of the rows it
returns. -/
inductive ClaimSends (env : Env) : Except QueueError (List EpisodeRecord) → List (Db × Write) → Prop
    where
  | empty : ClaimSends env (.ok []) []
  | claimed {db : Db} {rows : List (String × Episode)} :
      db.rejectsClaim (rows.map Prod.fst) env.now = false →
      ClaimSends env (.ok (rows.map (claimRecord env.now)))
        [(db, .claimEpisodes (rows.map Prod.fst) env.now)]
  | rejected {db : Db} {rows : List (String × Episode)} :
      db.rejectsClaim (rows.map Prod.fst) env.now = true →
      ClaimSends env (.error (.integrity .uniqueIndex))
        [(db, .claimEpisodes (rows.map Prod.fst) env.now)]

theorem does_claimNextBatch (hI : ∀ ids now, Keeps Write.exec I (.claimEpisodes ids now))
    (env : Env) (limit : Option ℤ) :
    Does Write.exec I .idle .idle (claimNextBatch env limit) (ClaimSends env) := by
  refine Does.withConn (m := .any) (does_select_bind fun db _ => ?_) ?_
  · dsimp only
    split
    · exact (does_ret ClaimSends.empty).to_any
    · refine does_write_bind (hI _ _) (fun s e _ he => ?_) fun s n s' _ hok => ?_
      · rcases hrej : s.rejectsClaim ((db.queueHead env.rank limit).map Prod.fst) env.now with _ | _
        · simp [Write.exec, hrej] at he
        · simp only [Write.exec, hrej, if_true] at he
          obtain rfl := Except.error.inj he
          exact .rejected hrej
      · rcases hrej : s.rejectsClaim ((db.queueHead env.rank limit).map Prod.fst) env.now with _ | _
        · exact (does_commit_ret (.claimed hrej)).to_any
        · simp [Write.exec, hrej] at hok
  · -- an index conflict: the update did nothing
    rintro e h (_ | _ | hrej) x hx
    obtain rfl := List.mem_singleton.mp hx
    simp [applied, Write.exec, hrej]

end JanusGraph
