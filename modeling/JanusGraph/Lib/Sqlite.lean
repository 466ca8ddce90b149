import JanusGraph.Lib.Prog

/-!
# A SQLite connection in Python's default transaction mode

The database is an abstract `σ`, its data-changing statements an abstract `W`
with a meaning `exec : W → σ → Except χ (ℕ × σ)`: the row count and the new
database, or a constraint error that leaves the database as it was (single
statements are atomic).

What is fixed here is the transaction discipline of `sqlite3` in its default
(deferred) mode:

* a data-changing statement outside a transaction begins one (`BEGIN`), and a
  statement rejected by a constraint leaves that transaction open;
* `SAVEPOINT` outside a transaction begins one too, and `RELEASE` of such an
  outermost savepoint commits it;
* a `SELECT` neither begins nor ends anything;
* `with conn:` commits when its body returns and rolls back when it raises.

A connection that dies loses its open transaction: what survives is `Conn.disk`.
-/

/-- The statements a script sends to its connection. -/
inductive Stmt (W : Type) : Type where
  /-- read the database the connection sees -/
  | select : Stmt W
  /-- a data-changing statement -/
  | write : W → Stmt W
  /-- `SAVEPOINT name` -/
  | savepoint : Stmt W
  /-- `ROLLBACK TO name`, for the innermost savepoint -/
  | rollbackTo : Stmt W
  /-- `RELEASE name`, for the innermost savepoint -/
  | release : Stmt W
  /-- `conn.commit()` -/
  | commit : Stmt W
  /-- `conn.rollback()` -/
  | rollback : Stmt W

/-- What a statement answers: the database seen, or the row count. -/
abbrev Answer (σ χ : Type) {W : Type} : Stmt W → Type
  | .select => σ
  | .write _ => Except χ ℕ
  | _ => Unit

/-- A script: a program of statements, with Python exceptions in `ε`. -/
abbrev Script (σ W χ ε α : Type) : Type := Prog (Stmt W) (Answer σ χ) ε α

/-- An open transaction. -/
structure Tx (σ : Type) : Type where
  /-- the database as the transaction has changed it so far -/
  view : σ
  /-- begun by `BEGIN`, as opposed to an outermost `SAVEPOINT` -/
  begun : Bool
  /-- the views saved by the savepoints, innermost first -/
  saves : List σ

/-- A connection: the committed database and the transaction, if one is open. -/
structure Conn (σ : Type) : Type where
  /-- the committed database -/
  disk : σ
  /-- the open transaction -/
  tx : Option (Tx σ)

namespace Conn

variable {σ W χ : Type}

/-- The database the connection sees: its own transaction over the disk. -/
def visible (c : Conn σ) : σ :=
  match c.tx with
  | none => c.disk
  | some t => t.view

/-- The transaction a data-changing statement runs in: the open one, or one it
begins. -/
def txOrBegin (c : Conn σ) : Tx σ := c.tx.getD ⟨c.disk, true, []⟩

/-- One statement on a connection. -/
def step (exec : W → σ → Except χ (ℕ × σ)) : Handler (Stmt W) (Answer σ χ) (Conn σ)
  | .select, c => (c.visible, c)
  | .write w, c =>
    match exec w c.txOrBegin.view with
    | .ok (n, s) => (.ok n, ⟨c.disk, some { c.txOrBegin with view := s }⟩)
    | .error e => (.error e, ⟨c.disk, some c.txOrBegin⟩)
  | .savepoint, c =>
    match c.tx with
    | none => ((), ⟨c.disk, some ⟨c.disk, false, [c.disk]⟩⟩)
    | some t => ((), ⟨c.disk, some { t with saves := t.view :: t.saves }⟩)
  | .rollbackTo, c =>
    match c.tx with
    | some ⟨_, b, s :: ss⟩ => ((), ⟨c.disk, some ⟨s, b, s :: ss⟩⟩)
    | _ => ((), c)
  | .release, c =>
    match c.tx with
    | some ⟨v, false, [_]⟩ => ((), ⟨v, none⟩)
    | some ⟨v, b, _ :: ss⟩ => ((), ⟨c.disk, some ⟨v, b, ss⟩⟩)
    | _ => ((), c)
  | .commit, c => ((), ⟨c.visible, none⟩)
  | .rollback, c => ((), ⟨c.disk, none⟩)

/-- The connection after an accepted statement. -/
def wrote (c : Conn σ) (s : σ) : Conn σ := ⟨c.disk, some { c.txOrBegin with view := s }⟩

/-- A connection without an open transaction. -/
def idle (s : σ) : Conn σ := ⟨s, none⟩

@[simp] theorem idle_disk (s : σ) : (idle s).disk = s := rfl

@[simp] theorem idle_tx (s : σ) : (idle s).tx = none := rfl

@[simp] theorem visible_idle (s : σ) : (idle s).visible = s := rfl

@[simp] theorem visible_mk_none (s : σ) : (⟨s, none⟩ : Conn σ).visible = s := rfl

@[simp] theorem visible_mk_some (s : σ) (t : Tx σ) :
    (⟨s, some t⟩ : Conn σ).visible = t.view := rfl

@[simp] theorem txOrBegin_mk_none (s : σ) :
    (⟨s, none⟩ : Conn σ).txOrBegin = ⟨s, true, []⟩ := rfl

@[simp] theorem txOrBegin_idle (s : σ) : (idle s).txOrBegin = ⟨s, true, []⟩ := rfl

@[simp] theorem txOrBegin_mk_some (s : σ) (t : Tx σ) :
    (⟨s, some t⟩ : Conn σ).txOrBegin = t := rfl

theorem txOrBegin_view (c : Conn σ) : c.txOrBegin.view = c.visible := by
  obtain ⟨d, _ | t⟩ := c <;> rfl

@[simp] theorem wrote_disk (c : Conn σ) (s : σ) : (c.wrote s).disk = c.disk := rfl

@[simp] theorem wrote_visible (c : Conn σ) (s : σ) : (c.wrote s).visible = s := rfl

variable {exec : W → σ → Except χ (ℕ × σ)}

@[simp] theorem step_select (c : Conn σ) : step exec .select c = (c.visible, c) := rfl

@[simp] theorem step_commit (c : Conn σ) :
    step exec .commit c = ((), ⟨c.visible, none⟩) := rfl

@[simp] theorem step_rollback (c : Conn σ) :
    step exec .rollback c = ((), ⟨c.disk, none⟩) := rfl

/-- An accepted statement changes what the connection sees, not the disk. -/
theorem step_write_ok {w : W} {c : Conn σ} {n : ℕ} {s : σ}
    (h : exec w c.visible = .ok (n, s)) :
    step exec (.write w) c = (.ok n, c.wrote s) := by
  simp only [step, txOrBegin_view, h, wrote]

/-- A rejected statement changes nothing the connection sees, but its
transaction stays open. -/
theorem step_write_error {w : W} {c : Conn σ} {e : χ} (h : exec w c.visible = .error e) :
    step exec (.write w) c = (.error e, ⟨c.disk, some c.txOrBegin⟩) := by
  simp only [step, txOrBegin_view, h]

/-- While a transaction is open the committed database does not change. -/
theorem step_disk {q : Stmt W} {c : Conn σ} {t : Tx σ} (h : (step exec q c).2.tx = some t) :
    (step exec q c).2.disk = c.disk := by
  cases q with
  | select => rfl
  | write w =>
    rcases hw : exec w c.txOrBegin.view with e | ⟨n, s⟩ <;> simp only [step, hw]
  | savepoint => obtain ⟨d, _ | t⟩ := c <;> rfl
  | rollbackTo => obtain ⟨d, _ | ⟨v, b, _ | ⟨s, ss⟩⟩⟩ := c <;> rfl
  | release =>
    obtain ⟨d, _ | ⟨v, _ | _, _ | ⟨s, _ | ⟨s', ss⟩⟩⟩⟩ := c
    all_goals first | rfl | cases h
  | commit => cases h
  | rollback => cases h

/-- Between two units of work a connection has no transaction open, or one begun
by `BEGIN` with no savepoint pending. -/
def Between (c : Conn σ) : Prop := ∀ t, c.tx = some t → t.begun = true ∧ t.saves = []

theorem between_idle (s : σ) : Between (idle s) := by
  intro t h
  cases h

theorem between_begun (s v : σ) : Between (⟨s, some ⟨v, true, []⟩⟩ : Conn σ) := by
  rintro t ⟨⟩
  exact ⟨rfl, rfl⟩

theorem Between.wrote {c : Conn σ} (h : c.Between) (s : σ) : (c.wrote s).Between := by
  obtain ⟨d, _ | t⟩ := c
  · exact between_begun d s
  · rintro t' ⟨⟩
    exact h t rfl

/-- The two shapes of a connection between units of work. -/
theorem Between.cases {c : Conn σ} (h : c.Between) :
    c = idle c.disk ∨ ∃ v, c = ⟨c.disk, some ⟨v, true, []⟩⟩ := by
  obtain ⟨d, _ | ⟨v, b, ss⟩⟩ := c
  · exact Or.inl rfl
  · obtain ⟨hb, hs⟩ := h _ rfl
    simp only at hb hs
    subst hb hs
    exact Or.inr ⟨v, rfl⟩

/-- In a transaction begun over the disk `s`. -/
def Begun (s : σ) (c : Conn σ) : Prop := ∃ v, c = ⟨s, some ⟨v, true, []⟩⟩

/-- A data-changing statement outside a transaction begins one. -/
theorem begun_wrote_idle (s v : σ) : ((idle s).wrote v).Begun s := ⟨v, rfl⟩

theorem Begun.wrote {s : σ} {c : Conn σ} (h : c.Begun s) (v : σ) : (c.wrote v).Begun s := by
  obtain ⟨v', rfl⟩ := h
  exact ⟨v, rfl⟩

theorem Begun.disk {s : σ} {c : Conn σ} (h : c.Begun s) : c.disk = s := by
  obtain ⟨v, rfl⟩ := h
  rfl

end Conn

namespace Script

variable {σ W χ ε ε' α β : Type}

/-- `SELECT`: the script works out its answer from the database it sees. -/
def select : Script σ W χ ε σ := Prog.request Stmt.select

/-- A data-changing statement whose constraint errors the script handles. -/
def tryWrite (w : W) : Script σ W χ ε (Except χ ℕ) := Prog.request (Stmt.write w)

/-- A data-changing statement; a constraint error is raised as `raise e`. -/
def write (raise : χ → ε) (w : W) : Script σ W χ ε ℕ :=
  Prog.ask (Stmt.write w) fun
    | .ok n => .ret n
    | .error e => .fail (raise e)

/-- `SAVEPOINT`. -/
def savepoint : Script σ W χ ε Unit := Prog.request Stmt.savepoint

/-- `ROLLBACK TO`. -/
def rollbackTo : Script σ W χ ε Unit := Prog.request Stmt.rollbackTo

/-- `RELEASE`. -/
def release : Script σ W χ ε Unit := Prog.request Stmt.release

/-- `conn.commit()`. -/
def commit : Script σ W χ ε Unit := Prog.request Stmt.commit

/-- `conn.rollback()`. -/
def rollback : Script σ W χ ε Unit := Prog.request Stmt.rollback

/-- A data-changing statement in a savepoint of its own: a constraint error undoes
this statement only. -/
def guarded (w : W) : Script σ W χ ε (Except χ ℕ) := do
  savepoint
  match ← tryWrite w with
  | .ok n =>
    release
    return .ok n
  | .error e =>
    rollbackTo
    release
    return .error e

/-- `with conn: body` -/
def withConn (body : Script σ W χ ε α) : Script σ W χ ε α := do
  match ← (body.attempt : Script σ W χ ε (Except ε α)) with
  | .ok a => do
    commit
    return a
  | .error e => do
    rollback
    Prog.fail e

/-- The database a script leaves when it runs alone on a fresh connection. -/
def exec (sem : W → σ → Except χ (ℕ × σ)) (p : Script σ W χ ε α) (s : σ) : σ :=
  (p.run (Conn.step sem) (Conn.idle s)).2.disk

/-- What the script returns, or raises, in that run. -/
def result (sem : W → σ → Except χ (ℕ × σ)) (p : Script σ W χ ε α) (s : σ) : Except ε α :=
  (p.run (Conn.step sem) (Conn.idle s)).1

variable {sem : W → σ → Except χ (ℕ × σ)}

/-- What a statement makes of the database: nothing, if it is rejected. -/
def applied (sem : W → σ → Except χ (ℕ × σ)) (s : σ) (w : W) : σ :=
  match sem w s with
  | .ok (_, s') => s'
  | .error _ => s

theorem applied_ok {w : W} {s s' : σ} {n : ℕ} (h : sem w s = .ok (n, s')) :
    applied sem s w = s' := by
  rw [applied, h]

theorem applied_error {w : W} {s : σ} {e : χ} (h : sem w s = .error e) :
    applied sem s w = s := by
  rw [applied, h]

/-! ## Running one statement -/

@[simp] theorem run_select (c : Conn σ) :
    (select : Script σ W χ ε σ).run (Conn.step sem) c = (.ok c.visible, c) := rfl

@[simp] theorem run_commit (c : Conn σ) :
    (commit : Script σ W χ ε Unit).run (Conn.step sem) c =
      (.ok (), Conn.idle c.visible) := rfl

@[simp] theorem run_rollback (c : Conn σ) :
    (rollback : Script σ W χ ε Unit).run (Conn.step sem) c =
      (.ok (), Conn.idle c.disk) := rfl

theorem run_tryWrite_ok {w : W} {c : Conn σ} {n : ℕ} {s : σ} (h : sem w c.visible = .ok (n, s)) :
    (tryWrite w : Script σ W χ ε _).run (Conn.step sem) c = (.ok (.ok n), c.wrote s) := by
  simp [tryWrite, Prog.request, Conn.step_write_ok h]

theorem run_tryWrite_error {w : W} {c : Conn σ} {e : χ} (h : sem w c.visible = .error e) :
    (tryWrite w : Script σ W χ ε _).run (Conn.step sem) c =
      (.ok (.error e), ⟨c.disk, some c.txOrBegin⟩) := by
  simp [tryWrite, Prog.request, Conn.step_write_error h]

theorem run_write_ok {raise : χ → ε} {w : W} {c : Conn σ} {n : ℕ} {s : σ}
    (h : sem w c.visible = .ok (n, s)) :
    (write raise w).run (Conn.step sem) c = (.ok n, c.wrote s) := by
  simp [write, Conn.step_write_ok h]

theorem run_write_error {raise : χ → ε} {w : W} {c : Conn σ} {e : χ}
    (h : sem w c.visible = .error e) :
    (write raise w).run (Conn.step sem) c = (.error (raise e), ⟨c.disk, some c.txOrBegin⟩) := by
  simp [write, Conn.step_write_error h]

/-- A guarded statement outside a transaction: the release of its savepoint, which
is the outermost one, commits it. -/
theorem run_guarded_idle (w : W) (s : σ) :
    (guarded w : Script σ W χ ε _).run (Conn.step sem) (Conn.idle s) =
      (.ok ((sem w s).map Prod.fst), Conn.idle (applied sem s w)) := by
  rcases h : sem w s with e | ⟨n, s'⟩ <;>
    simp [guarded, savepoint, tryWrite, rollbackTo, release, Prog.request, Conn.step, Conn.idle,
      applied, h, Except.map]

/-- Inside a transaction that a data-changing statement began it stays open, and so
does the transaction. -/
theorem run_guarded_begun (w : W) (d v : σ) :
    (guarded w : Script σ W χ ε _).run (Conn.step sem) ⟨d, some ⟨v, true, []⟩⟩ =
      (.ok ((sem w v).map Prod.fst), ⟨d, some ⟨applied sem v w, true, []⟩⟩) := by
  rcases h : sem w v with e | ⟨n, s'⟩ <;>
    simp [guarded, savepoint, tryWrite, rollbackTo, release, Prog.request, Conn.step, applied, h,
      Except.map]

/-- A guarded statement never raises and leaves no savepoint behind; rejected, it
commits nothing. -/
theorem run_guarded (w : W) {c : Conn σ} (hc : c.Between) :
    ∃ c', (guarded w : Script σ W χ ε _).run (Conn.step sem) c =
        (.ok ((sem w c.visible).map Prod.fst), c') ∧
      c'.Between ∧ c'.visible = applied sem c.visible w ∧
      (∀ e, sem w c.visible = .error e → c'.disk = c.disk) := by
  rcases hc.cases with hi | ⟨v, hv⟩
  · rw [hi]
    refine ⟨_, run_guarded_idle w c.disk, Conn.between_idle _, rfl, fun e he => ?_⟩
    exact applied_error he
  · rw [hv]
    exact ⟨_, run_guarded_begun w c.disk v, Conn.between_begun _ _, rfl, fun _ _ => rfl⟩

/-! ## Whole scripts -/

/-- A `with` block that returns commits what its body made visible. -/
theorem run_withConn_ok {body : Script σ W χ ε α} {c c' : Conn σ} {a : α}
    (h : body.run (Conn.step sem) c = (.ok a, c')) :
    (withConn body).run (Conn.step sem) c = (.ok a, Conn.idle c'.visible) := by
  rw [withConn, Prog.run_bind, Prog.run_attempt, h]
  rfl

/-! ## Dying inside a script

A process that dies leaves its disk, and so does a lock error: it is raised, and
`with conn:` rolls back. -/

/-- A predicate of the committed database. -/
def OnDisk (J : σ → Prop) : Conn σ → Prop := fun c => J c.disk

variable {J : σ → Prop}

theorem along_select {c : Conn σ} :
    (select : Script σ W χ ε σ).Along (Conn.step sem) (OnDisk J) c ↔ J c.disk :=
  and_self_iff

theorem along_commit {c : Conn σ} :
    (commit : Script σ W χ ε Unit).Along (Conn.step sem) (OnDisk J) c ↔ J c.disk ∧ J c.visible :=
  Iff.rfl

theorem along_rollback {c : Conn σ} :
    (rollback : Script σ W χ ε Unit).Along (Conn.step sem) (OnDisk J) c ↔ J c.disk :=
  and_self_iff

/-- A data-changing statement does not reach the disk. -/
theorem along_write {raise : χ → ε} {w : W} {c : Conn σ} :
    (write raise w).Along (Conn.step sem) (OnDisk J) c ↔ J c.disk := by
  rcases h : sem w c.visible with e | ⟨n, s⟩
  · simp [write, Conn.step_write_error h, OnDisk]
  · simp [write, Conn.step_write_ok h, OnDisk]

/-- The savepoint of a guarded statement is released with the statement in it: outside
a transaction that commits it. -/
theorem along_guarded_idle {w : W} {s : σ} :
    (guarded w : Script σ W χ ε _).Along (Conn.step sem) (OnDisk J) (Conn.idle s) ↔
      J s ∧ J (applied sem s w) := by
  rcases h : sem w s with e | ⟨n, s'⟩ <;>
    simp [guarded, savepoint, tryWrite, rollbackTo, release, Prog.request, Conn.step, Conn.idle,
      applied, h, OnDisk]

theorem along_guarded_begun {w : W} {d v : σ} :
    (guarded w : Script σ W χ ε _).Along (Conn.step sem) (OnDisk J) ⟨d, some ⟨v, true, []⟩⟩ ↔
      J d := by
  rcases h : sem w v with e | ⟨n, s'⟩ <;>
    simp [guarded, savepoint, tryWrite, rollbackTo, release, Prog.request, Conn.step, h, OnDisk]

/-- Along a `with` block the disk is what it is along its body, and what the block
leaves. -/
theorem along_withConn {body : Script σ W χ ε α} {c : Conn σ} :
    (withConn body).Along (Conn.step sem) (OnDisk J) c ↔
      body.Along (Conn.step sem) (OnDisk J) c ∧
        J ((withConn body).run (Conn.step sem) c).2.disk := by
  rw [withConn, Prog.along_bind, Prog.along_attempt, Prog.run_bind, Prog.run_attempt]
  rcases h : body.run (Conn.step sem) c with ⟨e | a, c'⟩
  · refine and_congr_right fun hb => ⟨fun _ => ?_, ?_⟩
    · have hend := hb.run
      rw [h] at hend
      exact hend
    · rintro hdisk r s' ⟨⟩
      exact ⟨hdisk, hdisk⟩
  · refine and_congr_right fun hb => ⟨fun hrest => (hrest _ _ rfl).2, ?_⟩
    rintro hdisk r s' ⟨⟩
    have hend := hb.run
    rw [h] at hend
    exact ⟨hend, hdisk⟩

theorem exec_eq {p : Script σ W χ ε α} {s : σ} {r : Except ε α} {c : Conn σ}
    (h : p.run (Conn.step sem) (Conn.idle s) = (r, c)) : p.exec sem s = c.disk := by
  rw [exec, h]

theorem result_eq {p : Script σ W χ ε α} {s : σ} {r : Except ε α} {c : Conn σ}
    (h : p.run (Conn.step sem) (Conn.idle s) = (r, c)) : p.result sem s = r := by
  rw [result, h]

end Script

/-! ## A rival

Another connection commits a change right before the first statement that satisfies
`p`: the way a check and the statement it is for can be torn apart. -/

/-- A connection, and what a rival is about to make of the database. -/
structure Rivalled (σ : Type) : Type where
  conn : Conn σ
  rival : Option (σ → σ)

namespace Conn

variable {σ W χ : Type}

/-- The rival's change, on the committed database. -/
def struck (c : Conn σ) (rival : Option (σ → σ)) : Conn σ :=
  { c with disk := (rival.getD id) c.disk }

/-- One statement of a connection that has a rival. -/
def stepRivalled (exec : W → σ → Except χ (ℕ × σ)) (p : W → Bool) :
    Handler (Stmt W) (Answer σ χ) (Rivalled σ)
  | .write w, r =>
    if p w then
      let a := step exec (.write w) (r.conn.struck r.rival)
      (a.1, ⟨a.2, none⟩)
    else
      let a := step exec (.write w) r.conn
      (a.1, ⟨a.2, r.rival⟩)
  | q, r =>
    let a := step exec q r.conn
    (a.1, ⟨a.2, r.rival⟩)

end Conn

namespace Script

variable {σ W χ ε ε' α β : Type}

/-- The script never sends a statement that satisfies `p`. -/
def Avoids (p : W → Bool) : Script σ W χ ε α → Prop
  | .ret _ => True
  | .fail _ => True
  | .ask q k => (∀ w, q = .write w → p w = false) ∧ ∀ a, Avoids p (k a)

variable {sem : W → σ → Except χ (ℕ × σ)} {p : W → Bool}

/-- The rules of `Avoids`. -/
theorem avoids_ret (a : α) : Avoids p (.ret a : Script σ W χ ε α) := trivial

theorem avoids_fail (e : ε) : Avoids p (.fail e : Script σ W χ ε α) := trivial

theorem Avoids.bind {q : Script σ W χ ε α} {f : α → Script σ W χ ε β} (hq : Avoids p q)
    (hf : ∀ a, Avoids p (f a)) : Avoids p (q >>= f) := by
  induction q with
  | ret a => exact hf a
  | fail e => trivial
  | ask q k ih => exact ⟨hq.1, fun a => ih a (hq.2 a)⟩

theorem Avoids.attempt {q : Script σ W χ ε α} (hq : Avoids p q) :
    Avoids p (q.attempt : Script σ W χ ε' (Except ε α)) := by
  induction q with
  | ret a => trivial
  | fail e => trivial
  | ask q k ih => exact ⟨hq.1, fun a => ih a (hq.2 a)⟩

theorem avoids_select : Avoids p (select : Script σ W χ ε σ) :=
  ⟨fun _ h => (nomatch h), fun _ => trivial⟩

theorem avoids_commit : Avoids p (commit : Script σ W χ ε Unit) :=
  ⟨fun _ h => (nomatch h), fun _ => trivial⟩

theorem avoids_rollback : Avoids p (rollback : Script σ W χ ε Unit) :=
  ⟨fun _ h => (nomatch h), fun _ => trivial⟩

theorem avoids_tryWrite {w : W} (h : p w = false) :
    Avoids p (tryWrite w : Script σ W χ ε (Except χ ℕ)) := by
  refine ⟨?_, fun _ => trivial⟩
  rintro w' ⟨⟩
  exact h

theorem Avoids.withConn {q : Script σ W χ ε α} (hq : Avoids p q) : Avoids p (withConn q) := by
  refine Avoids.bind hq.attempt ?_
  rintro (e | a)
  · exact avoids_rollback.bind fun _ => avoids_fail e
  · exact avoids_commit.bind fun _ => avoids_ret a

/-- A script that avoids `p` runs as it does alone, and the rival has not struck yet. -/
theorem Avoids.run {q : Script σ W χ ε α} (hq : Avoids p q) (r : Rivalled σ) :
    q.run (Conn.stepRivalled sem p) r =
      ((q.run (Conn.step sem) r.conn).1, ⟨(q.run (Conn.step sem) r.conn).2, r.rival⟩) := by
  induction q generalizing r with
  | ret a => rfl
  | fail e => rfl
  | ask s k ih =>
    have hstep : Conn.stepRivalled sem p s r =
        ((Conn.step sem s r.conn).1, ⟨(Conn.step sem s r.conn).2, r.rival⟩) := by
      cases s with
      | write w =>
        simp only [Conn.stepRivalled, hq.1 w rfl]
        rfl
      | select | savepoint | rollbackTo | release | commit | rollback => rfl
    rw [Prog.run_ask, hstep, ih _ (hq.2 _)]
    rfl

/-- Once the rival has struck, a script runs as it does alone. -/
theorem run_struck (q : Script σ W χ ε α) (c : Conn σ) :
    q.run (Conn.stepRivalled sem p) ⟨c, none⟩ =
      ((q.run (Conn.step sem) c).1, ⟨(q.run (Conn.step sem) c).2, none⟩) := by
  induction q generalizing c with
  | ret a => rfl
  | fail e => rfl
  | ask s k ih =>
    have hstep : Conn.stepRivalled sem p s ⟨c, none⟩ =
        ((Conn.step sem s c).1, ⟨(Conn.step sem s c).2, none⟩) := by
      cases s with
      | write w =>
        simp only [Conn.stepRivalled]
        split <;> rfl
      | select | savepoint | rollbackTo | release | commit | rollback => rfl
    rw [Prog.run_ask, hstep, ih]
    rfl

/-- A script that starts with a statement of `p` runs as it does alone on the database
the rival leaves. -/
theorem run_rivalled {w : W} (hp : p w = true) (k : Except χ ℕ → Script σ W χ ε α) (s : σ)
    (rival : Option (σ → σ)) :
    (Prog.ask (Stmt.write w) k : Script σ W χ ε α).run (Conn.stepRivalled sem p)
        ⟨Conn.idle s, rival⟩ =
      (((Prog.ask (Stmt.write w) k : Script σ W χ ε α).run (Conn.step sem)
          (Conn.idle ((rival.getD id) s))).1,
        ⟨((Prog.ask (Stmt.write w) k : Script σ W χ ε α).run (Conn.step sem)
          (Conn.idle ((rival.getD id) s))).2, none⟩) := by
  rw [Prog.run_ask, Prog.run_ask]
  simp only [Conn.stepRivalled, hp, if_true, run_struck]
  rfl

end Script

/-! ## What the statements of a script keep -/

namespace Conn

variable {σ W χ : Type} {exec : W → σ → Except χ (ℕ × σ)} {I : σ → Prop}

/-- Every database the connection holds satisfies `I`. -/
structure Within (I : σ → Prop) (c : Conn σ) : Prop where
  disk : I c.disk
  tx : ∀ t, c.tx = some t → I t.view ∧ ∀ s ∈ t.saves, I s

theorem within_idle {s : σ} (h : I s) : (idle s).Within I := ⟨h, nofun⟩

theorem Within.visible {c : Conn σ} (h : c.Within I) : I c.visible := by
  obtain ⟨d, _ | t⟩ := c
  · exact h.disk
  · exact (h.tx t rfl).1

/-- A statement keeps what its data-changing part keeps. -/
theorem Within.step {c : Conn σ} (h : c.Within I) {q : Stmt W}
    (hq : ∀ w, q = .write w → ∀ s, I s → I (Script.applied exec s w)) :
    (Conn.step exec q c).2.Within I := by
  cases q with
  | select => exact h
  | write w =>
    have hsaves : ∀ s ∈ c.txOrBegin.saves, I s := by
      obtain ⟨d, _ | t⟩ := c
      · exact nofun
      · exact (h.tx t rfl).2
    have hview := hq w rfl _ (c.txOrBegin_view ▸ h.visible)
    rcases hw : exec w c.txOrBegin.view with e | ⟨n, s⟩
    · simp only [Conn.step, hw]
      refine ⟨h.disk, ?_⟩
      rintro t ⟨⟩
      exact ⟨Script.applied_error hw ▸ hview, hsaves⟩
    · simp only [Conn.step, hw]
      refine ⟨h.disk, ?_⟩
      rintro t ⟨⟩
      exact ⟨Script.applied_ok hw ▸ hview, hsaves⟩
  | savepoint =>
    obtain ⟨d, _ | t⟩ := c
    · refine ⟨h.disk, ?_⟩
      rintro t ⟨⟩
      exact ⟨h.disk, by simpa using h.disk⟩
    · refine ⟨h.disk, ?_⟩
      rintro t' ⟨⟩
      exact ⟨(h.tx t rfl).1, by simpa using h.tx t rfl⟩
  | rollbackTo =>
    obtain ⟨d, _ | ⟨v, b, _ | ⟨s, ss⟩⟩⟩ := c
    · exact h
    · exact h
    · refine ⟨h.disk, ?_⟩
      rintro t ⟨⟩
      exact ⟨(h.tx _ rfl).2 s List.mem_cons_self, (h.tx _ rfl).2⟩
  | release =>
    have hview := h.visible
    obtain ⟨d, _ | ⟨v, _ | _, _ | ⟨s, _ | ⟨s', ss⟩⟩⟩⟩ := c
    all_goals
      try exact h
    · exact ⟨hview, nofun⟩
    all_goals
      refine ⟨h.disk, ?_⟩
      rintro t ⟨⟩
      exact ⟨hview, fun s'' hs => (h.tx _ rfl).2 s'' (List.mem_cons_of_mem _ hs)⟩
  | commit => exact ⟨h.visible, nofun⟩
  | rollback => exact ⟨h.disk, nofun⟩

end Conn

namespace Script

variable {σ W χ ε ε' α β : Type} {P : W → Prop}

/-- The script sends no data-changing statements but those in `P`. -/
def Sends (P : W → Prop) (p : Script σ W χ ε α) : Prop :=
  Prog.Only (fun q => ∀ w, q = .write w → P w) p

theorem sends_select : Sends P (select : Script σ W χ ε σ) := ⟨fun _ => nofun, fun _ => trivial⟩

theorem sends_commit : Sends P (commit : Script σ W χ ε Unit) := ⟨fun _ => nofun, fun _ => trivial⟩

theorem sends_tryWrite {w : W} (h : P w) : Sends P (tryWrite w : Script σ W χ ε (Except χ ℕ)) := by
  refine ⟨?_, fun _ => trivial⟩
  rintro w' ⟨⟩
  exact h

theorem sends_write {raise : χ → ε} {w : W} (h : P w) :
    Sends P (write raise w : Script σ W χ ε ℕ) := by
  refine (sends_tryWrite h).bind ?_
  rintro (e | n)
  · exact Prog.only_fail _
  · exact Prog.only_ret n

theorem sends_rollback : Sends P (rollback : Script σ W χ ε Unit) :=
  ⟨by rintro w ⟨⟩, fun _ => trivial⟩

theorem sends_guarded {w : W} (h : P w) : Sends P (guarded w : Script σ W χ ε (Except χ ℕ)) := by
  refine ⟨by rintro w ⟨⟩, fun _ => ?_⟩
  refine (sends_tryWrite h).bind ?_
  rintro (e | n)
  · exact ⟨by rintro w ⟨⟩, fun _ => ⟨by rintro w ⟨⟩, fun _ => trivial⟩⟩
  · exact ⟨by rintro w ⟨⟩, fun _ => trivial⟩

theorem Sends.withConn {p : Script σ W χ ε α} (hp : Sends P p) : Sends P (withConn p) := by
  refine Prog.Only.bind (Prog.Only.attempt hp) ?_
  rintro (e | a)
  · exact ⟨fun _ => nofun, fun _ => trivial⟩
  · exact ⟨fun _ => nofun, fun _ => trivial⟩

/-- What the statements in `P` keep, a script that sends no others keeps. -/
theorem Sends.exec {sem : W → σ → Except χ (ℕ × σ)} {I : σ → Prop} {p : Script σ W χ ε α}
    (hp : Sends P p) (hkeeps : ∀ w, P w → ∀ s, I s → I (applied sem s w)) {s : σ} (hs : I s) :
    I (p.exec sem s) :=
  (Prog.Only.along hp (fun _ _ hq hc => hc.step fun w hw => hkeeps w (hq w hw))
    (Conn.within_idle hs)).run.disk

end Script
