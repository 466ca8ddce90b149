import JanusGraph.Queue.Schema

/-!
# The retry policy

`RetryPolicy` of `pipeline/queue.py` and the SQL text functions its predicates
are made of. `lower` folds ASCII letters only, as SQLite's does, and all matching
is on lists of characters.

The clauses are kept apart from the queries that use them: `policyWhereClause` is what all
three paths append, `underCeiling`, `matchesClasses` and `oldEnough` are what each of them adds.
Each clause of a policy lets a row without an error text pass, so that no row is lost to a
comparison with `NULL`.
-/

namespace JanusGraph

/-! ## SQL text functions -/

/-- `lower(s)` -/
def sqlLower (s : String) : List Char := s.toList.map Char.toLower

/-- `instr(text, part) > 0` -/
def instr (text part : List Char) : Bool := text.tails.any fun t => part.isPrefixOf t

/-- `text LIKE pattern`, on lowered arguments: `%` matches any text and `_` any
one character. -/
def sqlLike : (pattern text : List Char) → Bool
  | [], text => text.isEmpty
  | '%' :: pattern, text => text.tails.any (sqlLike pattern)
  | '_' :: _, [] => false
  | '_' :: pattern, _ :: text => sqlLike pattern text
  | _ :: _, [] => false
  | p :: pattern, c :: text => p == c && sqlLike pattern text

/-- `LIMIT n`: a negative bound means no limit. -/
def sqlLimit {α : Type} (n : ℤ) (rows : List α) : List α :=
  if n < 0 then rows else rows.take n.toNat

theorem sqlLimit_sublist {α : Type} (n : ℤ) (rows : List α) :
    (sqlLimit n rows).Sublist rows := by
  unfold sqlLimit
  split
  · exact List.Sublist.refl rows
  · exact List.take_sublist _ _

/-! ## The policy -/

/-- The shared retry policy and its defaults. -/
structure RetryPolicy : Type where
  permanentErrorCodes : List String := ["Error code: 404", "Error code: 402"]
  allowedErrorCodes : List String := []
  reapLimit : ℤ := 24
  respectAttemptCeiling : Bool := true
  maxAttempts : ℤ := 3

/-- Whether an error text carries a code. -/
def carries (error code : String) : Bool := instr (sqlLower error) (sqlLower code)

/-- The codes `_policy_where_clause` makes clauses of: an allowlist wins over the
denylist. -/
def RetryPolicy.codes (policy : RetryPolicy) : List String :=
  if policy.allowedErrorCodes.isEmpty then policy.permanentErrorCodes
  else policy.allowedErrorCodes

/-- `_policy_where_clause`: every clause has to hold, and a row without an error
passes. -/
def policyWhereClause (policy : RetryPolicy) (error : Option String) : Bool :=
  match error with
  | none => true
  | some text =>
    if policy.allowedErrorCodes.isEmpty then policy.codes.all fun code => !carries text code
    else policy.codes.all fun code => carries text code

/-- Without clauses there is no restriction. -/
theorem policyWhereClause_of_codes_nil {policy : RetryPolicy} (h : policy.codes.isEmpty)
    (error : Option String) : policyWhereClause policy error = true := by
  rcases error with _ | text
  · rfl
  · have hnil : policy.codes = [] := List.isEmpty_iff.mp h
    simp [policyWhereClause, hnil]

/-- The attempt ceiling of the reaper. -/
def underCeiling (policy : RetryPolicy) (attempts : ℕ) : Bool :=
  !policy.respectAttemptCeiling || decide ((attempts : ℤ) < policy.maxAttempts)

/-- `LOWER(last_error) LIKE LOWER('%class%')` for one of the classes; no classes,
no filter. -/
def matchesClasses (classes : List String) (error : String) : Bool :=
  classes.isEmpty ||
    classes.any fun c => sqlLike ('%' :: sqlLower c ++ ['%']) (sqlLower error)

/-- `datetime(failed_at) <= datetime(now, '-n seconds')`: `datetime` drops the
fraction of a second. -/
def oldEnough (minAgeSec : ℤ) (now failedAt : ℕ) : Bool :=
  decide (minAgeSec ≤ 0 ∨ ((failedAt / 1000000 : ℕ) : ℤ) ≤ (now / 1000000 : ℕ) - minAgeSec)

/-! ## Eligibility -/

/-- The reaper's predicate, over an episode and the dead letter stored under the
same id: a `failed` row with an open dead letter is owned by the replay. -/
def reapEligible (policy : RetryPolicy) (e : Episode) (dl : Option DeadLetter) : Bool :=
  (e.status == .failed || e.status == .aborted) &&
    policyWhereClause policy e.lastError &&
    underCeiling policy e.attemptCount &&
    !(e.status == .failed && dl.any DeadLetter.isOpen)

/-- A dead letter the batch replay selects. -/
def replayEligible (policy : RetryPolicy) (classes : List String) (minAgeSec : ℤ) (now : ℕ)
    (d : DeadLetter) : Bool :=
  d.isOpen && matchesClasses classes d.lastError && oldEnough minAgeSec now d.failedAt &&
    policyWhereClause policy (some d.lastError)

example : policyWhereClause {} (some "APIError: error code: 404") = false := by decide

example : matchesClasses ["TIMEOUT"] "TimeoutError: <no message>" = true := by decide

end JanusGraph
