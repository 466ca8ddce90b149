import JanusGraph.Queue.Transition

/-!
# The episode worker

`EpisodeWorker.process_record` and the retry decision of `pipeline/retry.py`.
What happens outside the queue (the backstop's lookup, the ingestion into the
graph, the exceptions these raise) is an oracle (`Processing`); what is modelled
is which operations the worker then sends to the queue, and in which order.

The order matters: the checkpoint is written before the ingestion, the outcome after it, and
each is a transaction of its own. A worker that dies in between leaves its episode in
`processing`. The invariants of the queue use no more of it than `processRecord_cases`.
-/

namespace JanusGraph

/-! ## Exceptions -/

/-- What the worker looks at in an exception. -/
structure Exc : Type where
  /-- `type(exc).__name__` -/
  name : String
  /-- `isinstance(exc, (TypeError, ValueError, KeyError))` -/
  fatal : Bool
  /-- `str(exc)` -/
  message : String

/-- `NON_RETRYABLE_SCHEMA_SIGNATURES` -/
def nonRetryableSchemaSignatures : List String :=
  ["ExtractedEdges()", "ExtractedEntities()", "entity_resolutions", "duplicate_facts",
    "SummarizedEntities", "argument after ** must be a mapping"]

/-- `should_retry` -/
def shouldRetry (record : EpisodeRecord) (exc : Exc) (maxAttempts : ℕ) : Bool :=
  if maxAttempts ≤ record.attemptCount + 1 then false
  else if exc.fatal then false
  else if exc.name = "ValidationError" ||
      nonRetryableSchemaSignatures.any (fun sig => instr exc.message.toList sig.toList) then false
  else true

/-- `str.isspace`, for one character. -/
def pyIsSpace (c : Char) : Bool :=
  let n := c.toNat
  (9 ≤ n && n ≤ 13) || (28 ≤ n && n ≤ 32) || n == 0x85 || n == 0xa0 || n == 0x1680 ||
    (0x2000 ≤ n && n ≤ 0x200a) || n == 0x2028 || n == 0x2029 || n == 0x202f || n == 0x205f ||
    n == 0x3000

/-- `s.strip()` -/
def pyStrip (s : String) : String :=
  String.ofList ((s.toList.dropWhile pyIsSpace).reverse.dropWhile pyIsSpace).reverse

/-- `describe_exception` -/
def describeException (exc : Exc) : String :=
  let message := pyStrip exc.message
  if message = "" then exc.name ++ ": <no message>" else exc.name ++ ": " ++ message

/-! ## `process_record` -/

/-- How the ingestion of a record ends. -/
inductive Ingestion : Type where
  /-- the content is blank: the episode is done -/
  | blank
  /-- so it is, but the timeout fires while `mark_done` is on its way -/
  | blankLate (exc : Exc)
  /-- an exception before the checkpoint is written -/
  | raisedEarly (exc : Exc)
  /-- an exception, or the timeout, after it -/
  | raised (exc : Exc)
  /-- the timeout fires while `mark_done` is on its way -/
  | raisedLate (exc : Exc)
  | ingested

/-- What `process_record` meets outside the queue. -/
structure Processing : Type where
  /-- the finished duplicate the backstop found, with the digest, if it is enabled -/
  backstop : Option (String × String)
  ingestion : Ingestion

/-- The failure path of `process_record`: retry, or `send_to_dlq`. -/
def failurePath (record : EpisodeRecord) (exc : Exc) : Op :=
  if shouldRetry record exc 3 then .markFailed record.id (describeException exc)
  else .markAborted record.id (describeException exc)

/-- The operations `process_record` sends to the queue, in order. -/
def processRecord (record : EpisodeRecord) (p : Processing) : List Op :=
  match p.backstop with
  | some (existing, payloadHash) =>
    [.markSkippedDuplicate record.id (some existing) (some payloadHash)]
  | none =>
    match p.ingestion with
    | .blank => [.markDone record.id]
    | .blankLate exc => [.markDone record.id, failurePath record exc]
    | .raisedEarly exc => [failurePath record exc]
    | .raised exc => [.updateCheckpoint record.id "ingesting", failurePath record exc]
    | .raisedLate exc =>
      [.updateCheckpoint record.id "ingesting", .markDone record.id, failurePath record exc]
    | .ingested => [.updateCheckpoint record.id "ingesting", .markDone record.id]

/-- `last_error` of a record the sweep defers. -/
def softTimeoutError : String := "Sweep soft timeout exceeded"

/-- What the sweep sends for a record it defers. -/
def deferRecord (record : EpisodeRecord) : Op := .markFailed record.id softTimeoutError

/-- A worker only records outcomes and the checkpoint of its own record. -/
theorem processRecord_cases {record : EpisodeRecord} {p : Processing} {op : Op}
    (h : op ∈ processRecord record p) :
    (∃ existing payloadHash, op = .markSkippedDuplicate record.id existing payloadHash) ∨
      (∃ text, op = .updateCheckpoint record.id text) ∨ op = .markDone record.id ∨
      (∃ exc, op = failurePath record exc) := by
  obtain ⟨backstop, ingestion⟩ := p
  rcases backstop with _ | ⟨existing, payloadHash⟩
  · cases ingestion <;> simp only [processRecord, List.mem_cons, List.not_mem_nil, or_false] at h
    · exact Or.inr (Or.inr (Or.inl h))
    · rcases h with h | h
      · exact Or.inr (Or.inr (Or.inl h))
      · exact Or.inr (Or.inr (Or.inr ⟨_, h⟩))
    · exact Or.inr (Or.inr (Or.inr ⟨_, h⟩))
    · rcases h with h | h
      · exact Or.inr (Or.inl ⟨_, h⟩)
      · exact Or.inr (Or.inr (Or.inr ⟨_, h⟩))
    · rcases h with h | h | h
      · exact Or.inr (Or.inl ⟨_, h⟩)
      · exact Or.inr (Or.inr (Or.inl h))
      · exact Or.inr (Or.inr (Or.inr ⟨_, h⟩))
    · rcases h with h | h
      · exact Or.inr (Or.inl ⟨_, h⟩)
      · exact Or.inr (Or.inr (Or.inl h))
  · exact Or.inl ⟨_, _, List.mem_singleton.mp h⟩

end JanusGraph
