import JanusGraph.Lib.Sqlite
import Mathlib.Data.List.Induction

/-!
# Interleaved scripts over one database

Any number of processes run scripts against one SQLite file. Writers are
serialised: from the statement that begins a transaction to the one that ends it
no other connection can write, and nobody sees what it has written so far. So a
schedule is a sequence of *blocks*, a block being one statement outside a
transaction or a whole transaction, and between two blocks of a session every
other session may have moved (`Pool.exec`). A process that dies is a session that
is not scheduled any more.

`Safe` is the proof rule. It follows one script from block to block, and at each
boundary forgets the database: all that is known of it afterwards is the
invariant `I`, which every block has to keep. `Pool.sound` says that what is
`Safe` alone holds in every reachable pool.
-/

/-- One block of a session: the database before and after it, and the
data-changing statements it sent. -/
structure Event (σ W : Type) : Type where
  before : σ
  after : σ
  sent : List W

/-- A connection with its history. -/
structure Trace (σ W : Type) : Type where
  conn : Conn σ
  /-- the data-changing statements of the open block -/
  sent : List W
  /-- the finished blocks, oldest first -/
  events : List (Event σ W)

/-- The data-changing statement of a statement. -/
def Stmt.writes {W : Type} : Stmt W → List W
  | .write w => [w]
  | _ => []

variable {σ W χ ε ε' α β ι : Type}

namespace Trace

/-- A session between two blocks. -/
def start (s : σ) (events : List (Event σ W)) : Trace σ W := ⟨Conn.idle s, [], events⟩

/-- The event that a block ending in connection `c` leaves. -/
def event (t : Trace σ W) (q : Stmt W) (c : Conn σ) : Event σ W :=
  ⟨t.conn.disk, c.disk, t.sent ++ q.writes⟩

/-- The history after a statement that led to connection `c`. -/
def record (t : Trace σ W) (q : Stmt W) (c : Conn σ) : Trace σ W :=
  match c.tx with
  | some _ => ⟨c, t.sent ++ q.writes, t.events⟩
  | none => start c.disk (t.events ++ [t.event q c])

@[simp] theorem start_conn (s : σ) (events : List (Event σ W)) :
    (start s events).conn = Conn.idle s := rfl

@[simp] theorem start_sent (s : σ) (events : List (Event σ W)) : (start s events).sent = [] := rfl

@[simp] theorem start_events (s : σ) (events : List (Event σ W)) :
    (start s events).events = events := rfl

end Trace

/-- Run a session to the end of its next block. -/
def Script.block (sem : W → σ → Except χ (ℕ × σ)) :
    Script σ W χ ε α → Trace σ W → Script σ W χ ε α × Trace σ W
  | .ret a, t => (.ret a, t)
  | .fail e, t => (.fail e, t)
  | .ask q k, t =>
    match (Conn.step sem q t.conn).2.tx with
    | some _ =>
      Script.block sem (k (Conn.step sem q t.conn).1) (t.record q (Conn.step sem q t.conn).2)
    | none => (k (Conn.step sem q t.conn).1, t.record q (Conn.step sem q t.conn).2)

/-! ## The proof rule -/

/-- Whatever the other sessions do within `I`, every block of the script satisfies
`G` and it ends in a result and history satisfying `Q`. -/
def Script.Safe (sem : W → σ → Except χ (ℕ × σ)) (I : σ → Prop) (G : Event σ W → Prop)
    (Q : Except ε α → Trace σ W → Prop) : Script σ W χ ε α → Trace σ W → Prop
  | .ret a, t => Q (.ok a) t
  | .fail e, t => Q (.error e) t
  | .ask q k, t =>
    match (Conn.step sem q t.conn).2.tx with
    | some _ =>
      Safe sem I G Q (k (Conn.step sem q t.conn).1) (t.record q (Conn.step sem q t.conn).2)
    | none =>
      G (t.event q (Conn.step sem q t.conn).2) ∧
        ∀ s, I s → Safe sem I G Q (k (Conn.step sem q t.conn).1)
          (.start s (t.events ++ [t.event q (Conn.step sem q t.conn).2]))

namespace Script

variable {sem : W → σ → Except χ (ℕ × σ)} {I : σ → Prop} {G : Event σ W → Prop}
  {Q Q' : Except ε α → Trace σ W → Prop}

@[simp] theorem safe_ret (a : α) (t : Trace σ W) :
    Safe sem I G Q (.ret a : Script σ W χ ε α) t ↔ Q (.ok a) t := Iff.rfl

@[simp] theorem safe_fail (e : ε) (t : Trace σ W) :
    Safe sem I G Q (.fail e : Script σ W χ ε α) t ↔ Q (.error e) t := Iff.rfl

/-- A statement that leaves a transaction open. -/
theorem safe_ask_open {q : Stmt W} {k : Answer σ χ q → Script σ W χ ε α} {t : Trace σ W}
    {tx : Tx σ} (h : (Conn.step sem q t.conn).2.tx = some tx) :
    Safe sem I G Q (.ask q k) t ↔
      Safe sem I G Q (k (Conn.step sem q t.conn).1)
        ⟨(Conn.step sem q t.conn).2, t.sent ++ q.writes, t.events⟩ := by
  simp only [Safe, Trace.record, h]

/-- A statement that ends a block. -/
theorem safe_ask_end {q : Stmt W} {k : Answer σ χ q → Script σ W χ ε α} {t : Trace σ W}
    (h : (Conn.step sem q t.conn).2.tx = none) :
    Safe sem I G Q (.ask q k) t ↔
      G (t.event q (Conn.step sem q t.conn).2) ∧
        ∀ s, I s → Safe sem I G Q (k (Conn.step sem q t.conn).1)
          (.start s (t.events ++ [t.event q (Conn.step sem q t.conn).2])) := by
  simp only [Safe, h]

/-- A script within a context that passes its statements on, such as a handler or what is
still to be done after it. -/
theorem Safe.within {G' : Event σ W → Prop} {Q' : Except ε' β → Trace σ W → Prop}
    {F : Script σ W χ ε α → Script σ W χ ε' β}
    (hask : ∀ q (k : Answer σ χ q → Script σ W χ ε α), F (.ask q k) = .ask q fun r => F (k r))
    (hG : ∀ ev, G ev → G' ev) (hret : ∀ a t, Q (.ok a) t → Safe sem I G' Q' (F (.ret a)) t)
    (hfail : ∀ e t, Q (.error e) t → Safe sem I G' Q' (F (.fail e)) t)
    {p : Script σ W χ ε α} {t : Trace σ W} (h : Safe sem I G Q p t) :
    Safe sem I G' Q' (F p) t := by
  induction p generalizing t with
  | ret a => exact hret a t h
  | fail e => exact hfail e t h
  | ask q k ih =>
    rw [hask]
    rcases htx : (Conn.step sem q t.conn).2.tx with _ | tx
    · rw [safe_ask_end htx] at h ⊢
      exact ⟨hG _ h.1, fun s hs => ih _ (h.2 s hs)⟩
    · rw [safe_ask_open htx] at h ⊢
      exact ih _ h

/-- Less may be asked of the blocks, too. -/
theorem Safe.weaken {G' : Event σ W → Prop} {p : Script σ W χ ε α} {t : Trace σ W}
    (h : Safe sem I G Q p t) (hG : ∀ ev, G ev → G' ev) (hQ : ∀ r t, Q r t → Q' r t) :
    Safe sem I G' Q' p t :=
  h.within (F := id) (fun _ _ => rfl) hG (fun _ _ hq => hQ _ _ hq) fun _ _ hq => hQ _ _ hq

theorem Safe.mono {p : Script σ W χ ε α} {t : Trace σ W} (h : Safe sem I G Q p t)
    (hQ : ∀ r t, Q r t → Q' r t) : Safe sem I G Q' p t :=
  h.weaken (fun _ hev => hev) hQ

/-- Sequencing. -/
theorem safe_bind {p : Script σ W χ ε α} {f : α → Script σ W χ ε β} {t : Trace σ W}
    {Q : Except ε β → Trace σ W → Prop}
    (h : Safe sem I G
      (fun r t => match r with
        | .ok a => Safe sem I G Q (f a) t
        | .error e => Q (.error e) t) p t) :
    Safe sem I G Q (p >>= f) t :=
  h.within (F := (· >>= f)) (fun q k => Prog.ask_bind q k f) (fun _ hev => hev)
    (fun _ _ hq => hq) fun _ _ hq => hq

theorem safe_map {f : α → β} {p : Script σ W χ ε α} {t : Trace σ W}
    {Q : Except ε β → Trace σ W → Prop} (h : Safe sem I G (fun r t => Q (r.map f) t) p t) :
    Safe sem I G Q (f <$> p) t := by
  rw [map_eq_pure_bind]
  refine safe_bind (h.mono ?_)
  rintro (e | a) t hQ
  · exact hQ
  · exact hQ

/-- `try`: the handler sees the exception as a result. -/
theorem safe_attempt {p : Script σ W χ ε α} {t : Trace σ W}
    {Q : Except ε' (Except ε α) → Trace σ W → Prop}
    (h : Safe sem I G (fun r t => Q (.ok r) t) p t) :
    Safe sem I G Q (p.attempt : Script σ W χ ε' _) t :=
  h.within (F := Prog.attempt) (fun q k => Prog.attempt_ask q k) (fun _ hev => hev)
    (fun _ _ hq => hq) fun _ _ hq => hq

end Script

/-! ## Blocks -/

namespace Script

variable {sem : W → σ → Except χ (ℕ × σ)} {I : σ → Prop} {G : Event σ W → Prop}
  {Post : Except ε α → List (Event σ W) → Prop}

/-- What one block of a safe session does: the script is over, or the block is an
event satisfying `G` and the rest is safe wherever the others lead. -/
theorem Safe.block {p : Script σ W χ ε α} {t : Trace σ W}
    (h : Safe sem I G (fun r t => Post r t.events) p t) :
    ((p.block sem t).2.events = t.events ∧ (p.block sem t).2.conn.disk = t.conn.disk ∧
        ∀ s, Safe sem I G (fun r t => Post r t.events) (p.block sem t).1 (.start s t.events)) ∨
      ∃ ev, G ev ∧ ev.before = t.conn.disk ∧ ev.after = (p.block sem t).2.conn.disk ∧
        (p.block sem t).2.events = t.events ++ [ev] ∧
        ∀ s, I s → Safe sem I G (fun r t => Post r t.events) (p.block sem t).1
          (.start s (t.events ++ [ev])) := by
  induction p generalizing t with
  | ret a => exact Or.inl ⟨rfl, rfl, fun s => h⟩
  | fail e => exact Or.inl ⟨rfl, rfl, fun s => h⟩
  | ask q k ih =>
    rcases htx : (Conn.step sem q t.conn).2.tx with _ | tx
    · rw [safe_ask_end htx] at h
      simp only [Script.block, htx, Trace.record]
      exact Or.inr ⟨_, h.1, rfl, rfl, rfl, h.2⟩
    · rw [safe_ask_open htx] at h
      have hdisk : (Conn.step sem q t.conn).2.disk = t.conn.disk := Conn.step_disk htx
      have := ih _ h
      simp only [Script.block, htx, Trace.record]
      rw [hdisk] at this
      exact this

/-- With nothing asked of the blocks and of the result, every script is safe. -/
theorem Safe.trivial (p : Script σ W χ ε α) (t : Trace σ W) :
    Safe sem I (fun _ => True) (fun _ _ => True) p t := by
  induction p generalizing t with
  | ret a => exact True.intro
  | fail e => exact True.intro
  | ask q k ih =>
    rcases htx : (Conn.step sem q t.conn).2.tx with _ | tx
    · exact (safe_ask_end htx).mpr ⟨True.intro, fun s _ => ih _ _⟩
    · exact (safe_ask_open htx).mpr (ih _ _)

/-- A safe session that has not ended can still end, with what it has done so far at
the beginning of its history. -/
theorem Safe.exists_post {p : Script σ W χ ε α} {t : Trace σ W}
    (h : Safe sem I G (fun r t => Post r t.events) p t) (hI : I t.conn.disk) :
    ∃ r events, Post r events ∧ t.events <+: events := by
  induction p generalizing t with
  | ret a => exact ⟨_, t.events, h, List.prefix_rfl⟩
  | fail e => exact ⟨_, t.events, h, List.prefix_rfl⟩
  | ask q k ih =>
    rcases htx : (Conn.step sem q t.conn).2.tx with _ | tx
    · -- as if nobody else moved
      obtain ⟨-, hrest⟩ := (safe_ask_end htx).mp h
      obtain ⟨r, events, hpost, hprefix⟩ := ih _ (hrest t.conn.disk hI) hI
      exact ⟨r, events, hpost, (List.prefix_append _ _).trans hprefix⟩
    · have hdisk : (Conn.step sem q t.conn).2.disk = t.conn.disk := Conn.step_disk htx
      exact ih _ (t := ⟨_, t.sent ++ q.writes, t.events⟩) ((safe_ask_open htx).mp h) (hdisk ▸ hI)

/-- A safe session that runs alone: what its blocks keep, it keeps. -/
theorem Safe.alone {Q : Except ε α → Trace σ W → Prop} {p : Script σ W χ ε α} {t : Trace σ W}
    (h : Safe sem I G Q p t) (hG : ∀ ev, I ev.before → G ev → I ev.after) (hI : I t.conn.disk) :
    I (p.run (Conn.step sem) t.conn).2.disk := by
  induction p generalizing t with
  | ret a => exact hI
  | fail e => exact hI
  | ask q k ih =>
    rw [Prog.run]
    rcases htx : (Conn.step sem q t.conn).2.tx with _ | tx
    · obtain ⟨hev, hrest⟩ := (safe_ask_end htx).mp h
      have hdisk : I (Conn.step sem q t.conn).2.disk := hG _ hI hev
      have hidle : (Conn.step sem q t.conn).2 = Conn.idle (Conn.step sem q t.conn).2.disk := by
        rw [Conn.idle, ← htx]
      rw [hidle]
      exact ih _ (hrest _ hdisk) hdisk
    · have hdisk : (Conn.step sem q t.conn).2.disk = t.conn.disk := Conn.step_disk htx
      exact ih _ (t := ⟨_, t.sent ++ q.writes, t.events⟩) ((safe_ask_open htx).mp h) (hdisk ▸ hI)

/-- Two things that are safe are safe together. -/
theorem Safe.and {G' : Event σ W → Prop} {Q Q' : Except ε α → Trace σ W → Prop}
    {p : Script σ W χ ε α} {t : Trace σ W} (h : Safe sem I G Q p t) (h' : Safe sem I G' Q' p t) :
    Safe sem I (fun ev => G ev ∧ G' ev) (fun r t => Q r t ∧ Q' r t) p t := by
  induction p generalizing t with
  | ret a => exact ⟨h, h'⟩
  | fail e => exact ⟨h, h'⟩
  | ask q k ih =>
    rcases htx : (Conn.step sem q t.conn).2.tx with _ | tx
    · obtain ⟨hev, hrest⟩ := (safe_ask_end htx).mp h
      obtain ⟨hev', hrest'⟩ := (safe_ask_end htx).mp h'
      exact (safe_ask_end htx).mpr
        ⟨⟨hev, hev'⟩, fun s hs => ih _ (hrest s hs) (hrest' s hs)⟩
    · exact (safe_ask_open htx).mpr
        (ih _ ((safe_ask_open htx).mp h) ((safe_ask_open htx).mp h'))

/-- A script that sends no other statements than those in `P`, has sent no others. -/
theorem Safe.sends {P : W → Prop} {Q : Except ε α → Trace σ W → Prop} {p : Script σ W χ ε α}
    {t : Trace σ W} (h : Safe sem I G Q p t) (hp : Sends P p)
    (hevents : ∀ ev ∈ t.events, ∀ w ∈ ev.sent, P w) (hsent : ∀ w ∈ t.sent, P w) :
    Safe sem I G (fun r t => Q r t ∧ ∀ ev ∈ t.events, ∀ w ∈ ev.sent, P w) p t := by
  induction p generalizing t with
  | ret a => exact ⟨h, hevents⟩
  | fail e => exact ⟨h, hevents⟩
  | ask q k ih =>
    have hwrites : ∀ w ∈ t.sent ++ q.writes, P w := by
      intro w hw
      rcases List.mem_append.mp hw with hw | hw
      · exact hsent w hw
      · cases q with
        | write w' => exact List.mem_singleton.mp hw ▸ hp.1 w' rfl
        | _ => cases hw
    rcases htx : (Conn.step sem q t.conn).2.tx with _ | tx
    · obtain ⟨hev, hrest⟩ := (safe_ask_end htx).mp h
      refine (safe_ask_end htx).mpr ⟨hev, fun s hs => ih _ (hrest s hs) (hp.2 _) ?_ nofun⟩
      intro ev hmem
      rcases List.mem_append.mp hmem with hmem | hmem
      · exact hevents ev hmem
      · exact List.mem_singleton.mp hmem ▸ hwrites
    · exact (safe_ask_open htx).mpr (ih _ ((safe_ask_open htx).mp h) (hp.2 _) hevents hwrites)

end Script

/-! ## Pools -/

/-- A running script. -/
structure Session (ι σ W χ ε α : Type) : Type where
  /-- what it was started for -/
  tag : ι
  /-- what it still has to do -/
  script : Script σ W χ ε α
  /-- what it has done -/
  events : List (Event σ W)

/-- The database and everybody working on it. -/
structure Pool (ι σ W χ ε α : Type) : Type where
  disk : σ
  sessions : List (Session ι σ W χ ε α)
  /-- every block so far with the session it was of, oldest first -/
  log : List (ℕ × Event σ W)

/-- What a schedule says next. -/
inductive Label (ι : Type) : Type where
  /-- a process starts a script -/
  | start : ι → Label ι
  /-- session `i` runs its next block -/
  | block : ℕ → Label ι

namespace Pool

/-- Session `i`, doing what `s` says, runs its next block. -/
def stepSession (sem : W → σ → Except χ (ℕ × σ)) (p : Pool ι σ W χ ε α) (i : ℕ)
    (s : Session ι σ W χ ε α) : Pool ι σ W χ ε α :=
  let r := s.script.block sem (.start p.disk s.events)
  { disk := r.2.conn.disk
    sessions := p.sessions.set i ⟨s.tag, r.1, r.2.events⟩
    log := p.log ++ (r.2.events.drop s.events.length).map fun ev => (i, ev) }

/-- One step of a schedule. -/
def next (sem : W → σ → Except χ (ℕ × σ)) (script : ι → Script σ W χ ε α)
    (p : Pool ι σ W χ ε α) : Label ι → Pool ι σ W χ ε α
  | .start tag => { p with sessions := p.sessions ++ [⟨tag, script tag, []⟩] }
  | .block i =>
    match p.sessions[i]? with
    | some s => p.stepSession sem i s
    | none => p

/-- Nobody has started yet. -/
def init (s : σ) : Pool ι σ W χ ε α := ⟨s, [], []⟩

/-- The pool after a schedule. -/
def exec (sem : W → σ → Except χ (ℕ × σ)) (script : ι → Script σ W χ ε α) (s : σ)
    (schedule : List (Label ι)) : Pool ι σ W χ ε α :=
  schedule.foldl (next sem script) (init s)

end Pool

/-- Consecutive blocks: each begins where the one before it ended. -/
def Chained (s : σ) : List (ℕ × Event σ W) → σ → Prop
  | [], s' => s = s'
  | (_, ev) :: log, s' => ev.before = s ∧ Chained ev.after log s'

theorem Chained.append {s s' s'' : σ} {log log' : List (ℕ × Event σ W)}
    (h : Chained s log s') (h' : Chained s' log' s'') : Chained s (log ++ log') s'' := by
  induction log generalizing s with
  | nil =>
    obtain rfl : s = s' := h
    exact h'
  | cons entry log ih => exact ⟨h.1, ih h.2⟩

/-- A chain through a log splits at every entry. -/
theorem Chained.split {s s' : σ} {log log' : List (ℕ × Event σ W)} {i : ℕ} {ev : Event σ W}
    (h : Chained s (log ++ (i, ev) :: log') s') :
    Chained s log ev.before ∧ Chained ev.after log' s' := by
  induction log generalizing s with
  | nil => exact ⟨h.1.symm, h.2⟩
  | cons entry log ih =>
    obtain ⟨hbefore, hrest⟩ := h
    exact ⟨⟨hbefore, (ih hrest).1⟩, (ih hrest).2⟩

/-- Where a chain has come, the rest of it goes on. -/
theorem Chained.rest {s s' s'' : σ} {log log' : List (ℕ × Event σ W)} (h : Chained s log s')
    (h' : Chained s (log ++ log') s'') : Chained s' log' s'' := by
  induction log generalizing s with
  | nil =>
    obtain rfl : s = s' := h
    exact h'
  | cons entry log ih => exact ih h.2 h'.2

/-- If a chain leads from a state without `P` to one with it, some block of it
brought `P` about. -/
theorem Chained.exists_step {P : σ → Prop} {s s' : σ} {log : List (ℕ × Event σ W)}
    (h : Chained s log s') (hs : ¬ P s) (hs' : P s') :
    ∃ entry ∈ log, ¬ P entry.2.before ∧ P entry.2.after := by
  induction log generalizing s with
  | nil =>
    obtain rfl : s = s' := h
    exact absurd hs' hs
  | cons entry log ih =>
    obtain ⟨hbefore, hrest⟩ := h
    by_cases hP : P entry.2.after
    · refine ⟨entry, List.mem_cons_self, ?_, hP⟩
      rwa [hbefore]
    · obtain ⟨entry', hmem, hstep⟩ := ih hrest hP
      exact ⟨entry', List.mem_cons_of_mem _ hmem, hstep⟩

/-- What is sorted by a number, laid out number by number. -/
theorem perm_flatten {l : List (ℕ × α)} {ls : List (List α)}
    (h : ∀ (i : ℕ) part, ls[i]? = some part → part = (l.filter fun x => x.1 = i).map Prod.snd) :
    ((l.filter fun x => x.1 < ls.length).map Prod.snd).Perm ls.flatten := by
  induction ls using List.reverseRecOn with
  | nil => simp
  | append_singleton ls part ih =>
    have hpart : part = (l.filter fun x => x.1 = ls.length).map Prod.snd := h _ _ (by simp)
    have hls := ih fun i x hi => h i x
      ((List.getElem?_append_left (List.getElem?_eq_some_iff.mp hi).1).trans hi)
    have hsplit := List.filter_append_perm (fun x : ℕ × α => decide (x.1 < ls.length))
      (l.filter fun x => x.1 < (ls ++ [part]).length)
    rw [List.filter_filter, List.filter_filter] at hsplit
    have hlow : (l.filter fun x => decide (x.1 < ls.length) && decide (x.1 < (ls ++ [part]).length)) =
        l.filter fun x => x.1 < ls.length := by
      refine List.filter_congr fun x _ => ?_
      grind
    have hlast : (l.filter fun x => !decide (x.1 < ls.length) &&
        decide (x.1 < (ls ++ [part]).length)) = l.filter fun x => x.1 = ls.length := by
      refine List.filter_congr fun x _ => ?_
      grind
    rw [hlow, hlast] at hsplit
    refine (hsplit.symm.map Prod.snd).trans ?_
    rw [List.map_append, ← hpart, List.flatten_append, List.flatten_singleton]
    exact hls.append_right _

/-- Two different entries of a log have an order. -/
theorem exists_order_of_mem {l : List α} {a b : α} (ha : a ∈ l) (hb : b ∈ l)
    (hne : a ≠ b) :
    ∃ start between rest, l = start ++ a :: (between ++ b :: rest) ∨
      l = start ++ b :: (between ++ a :: rest) := by
  obtain ⟨l₁, l₂, rfl⟩ := List.append_of_mem ha
  rcases List.mem_append.mp hb with hb | hb
  · obtain ⟨l₃, l₄, rfl⟩ := List.append_of_mem hb
    exact ⟨l₃, l₄, l₂, Or.inr (by simp)⟩
  · rcases List.mem_cons.mp hb with rfl | hb
    · exact absurd rfl hne
    · obtain ⟨l₃, l₄, rfl⟩ := List.append_of_mem hb
      exact ⟨l₁, l₃, l₄, Or.inl rfl⟩

namespace Pool

variable {sem : W → σ → Except χ (ℕ × σ)} {script : ι → Script σ W χ ε α} {I : σ → Prop}
  {G : ι → Event σ W → Prop} {Post : ι → Except ε α → List (Event σ W) → Prop}

/-- What is known of every reachable pool. -/
structure Sound (sem : W → σ → Except χ (ℕ × σ)) (I : σ → Prop)
    (G : ι → Event σ W → Prop) (Post : ι → Except ε α → List (Event σ W) → Prop) (s₀ : σ)
    (p : Pool ι σ W χ ε α) : Prop where
  /-- the invariant of the database -/
  disk : I p.disk
  /-- the log is a history of the database -/
  chained : Chained s₀ p.log p.disk
  /-- every block so far began and ended in the invariant, and is one its session
  may take -/
  log : ∀ entry ∈ p.log, I entry.2.before ∧ I entry.2.after ∧
    ∃ s, p.sessions[entry.1]? = some s ∧ G s.tag entry.2
  /-- every session is safe, whatever happens before its next block -/
  sessions : ∀ (i : ℕ) (s : Session ι σ W χ ε α), p.sessions[i]? = some s → ∀ d, I d →
    Script.Safe sem I (G s.tag) (fun r t => Post s.tag r t.events) s.script
      (.start d s.events)
  /-- a session's history is its part of the log -/
  events : ∀ (i : ℕ) (s : Session ι σ W χ ε α), p.sessions[i]? = some s →
    s.events = (p.log.filter fun entry => entry.1 = i).map Prod.snd

theorem sound_init {s₀ : σ} (h : I s₀) :
    Sound sem I G Post s₀ (init s₀ : Pool ι σ W χ ε α) where
  disk := h
  chained := rfl
  log := by simp [init]
  sessions := by simp [init]
  events := by simp [init]

/-- The sessions after a start are the old ones and the new one. -/
theorem getElem?_concat_cases {β : Type*} {l : List β} {x y : β} {j : ℕ}
    (h : (l ++ [y])[j]? = some x) : l[j]? = some x ∨ j = l.length ∧ x = y := by
  rcases Nat.lt_or_ge j l.length with hlt | hge
  · exact .inl (by rwa [List.getElem?_append_left hlt] at h)
  · rw [List.getElem?_append_right hge, List.getElem?_singleton] at h
    split at h
    · exact .inr ⟨by omega, (Option.some.inj h).symm⟩
    · cases h

/-- The sessions after a block are the others and the one that took it. -/
theorem getElem?_set_cases {β : Type*} {l : List β} {x y : β} {i j : ℕ}
    (h : (l.set i y)[j]? = some x) : j = i ∧ x = y ∨ j ≠ i ∧ l[j]? = some x := by
  by_cases hij : i = j
  · subst hij
    rw [List.getElem?_set_self'] at h
    obtain ⟨_, -, rfl⟩ := Option.map_eq_some_iff.mp h
    exact .inl ⟨rfl, rfl⟩
  · exact .inr ⟨Ne.symm hij, by rwa [List.getElem?_set_ne hij] at h⟩

/-- Starting a script changes nothing for the others. -/
theorem Sound.start {s₀ : σ} {p : Pool ι σ W χ ε α} (h : Sound sem I G Post s₀ p)
    (hscript : ∀ tag d, I d →
      (script tag).Safe sem I (G tag) (fun r t => Post tag r t.events) (.start d []))
    (tag : ι) : Sound sem I G Post s₀ (p.next sem script (.start tag)) where
  disk := h.disk
  chained := h.chained
  log := by
    intro entry hentry
    obtain ⟨hb, ha, s, hs, hG⟩ := h.log entry hentry
    have hlt := (List.getElem?_eq_some_iff.mp hs).1
    refine ⟨hb, ha, s, ?_, hG⟩
    rw [← hs]
    exact List.getElem?_append_left hlt
  sessions := by
    intro i s hi d hd
    rcases getElem?_concat_cases hi with hold | ⟨-, rfl⟩
    · exact h.sessions i s hold d hd
    · exact hscript tag d hd
  events := by
    intro i s hi
    rcases getElem?_concat_cases hi with hold | ⟨rfl, rfl⟩
    · exact h.events i s hold
    · -- nothing in the log can be of a session that is only starting
      have hnone : p.log.filter (fun entry => entry.1 = p.sessions.length) = [] := by
        rw [List.filter_eq_nil_iff]
        intro entry hentry hi
        obtain ⟨-, -, s, hs, -⟩ := h.log entry hentry
        have hlt := (List.getElem?_eq_some_iff.mp hs).1
        exact absurd (of_decide_eq_true hi) (Nat.ne_of_lt hlt)
      simp only [next, hnone, List.map_nil]

/-- What the log says of the sessions survives a block: the tags stay. -/
theorem Sound.log_set {s₀ : σ} {p : Pool ι σ W χ ε α} (h : Sound sem I G Post s₀ p) {i : ℕ}
    {s s' : Session ι σ W χ ε α} (hi : p.sessions[i]? = some s) (htag : s'.tag = s.tag) :
    ∀ entry ∈ p.log, I entry.2.before ∧ I entry.2.after ∧
      ∃ x, (p.sessions.set i s')[entry.1]? = some x ∧ G x.tag entry.2 := by
  intro entry hentry
  obtain ⟨hb, ha, x, hx, hGx⟩ := h.log entry hentry
  refine ⟨hb, ha, ?_⟩
  by_cases hij : i = entry.1
  · subst hij
    obtain rfl : s = x := Option.some.inj (hi.symm.trans hx)
    exact ⟨s', List.getElem?_set_self (List.getElem?_eq_some_iff.mp hi).1, htag ▸ hGx⟩
  · exact ⟨x, (List.getElem?_set_ne hij).trans hx, hGx⟩

/-- One block of one session keeps what is known. -/
theorem Sound.stepSession (hI : ∀ tag ev, I ev.before → G tag ev → I ev.after) {s₀ : σ}
    {p : Pool ι σ W χ ε α}
    (h : Sound sem I G Post s₀ p) {i : ℕ} {s : Session ι σ W χ ε α}
    (hi : p.sessions[i]? = some s) : Sound sem I G Post s₀ (p.stepSession sem i s) := by
  rcases (h.sessions i s hi p.disk h.disk).block with
    ⟨hevents, hsame, hsafe⟩ | ⟨ev, hG, hbefore, hafter, hevents, hsafe⟩
  · -- the script was over: nothing happened
    have hnew : (s.script.block sem (.start p.disk s.events)).2.events.drop
        s.events.length = [] := by simp [hevents]
    refine ⟨?_, ?_, ?_, ?_, ?_⟩
    · simp only [Pool.stepSession, hsame]
      exact h.disk
    · simp only [Pool.stepSession, hnew, List.map_nil, List.append_nil, hsame]
      exact h.chained
    · simp only [Pool.stepSession, hnew, List.map_nil, List.append_nil]
      exact h.log_set hi rfl
    · intro j x hj d hd
      rcases getElem?_set_cases hj with ⟨rfl, rfl⟩ | ⟨-, hother⟩
      · simp only [hevents]
        exact hsafe d
      · exact h.sessions j x hother d hd
    · simp only [Pool.stepSession, hnew, List.map_nil, List.append_nil]
      intro j x hj
      rcases getElem?_set_cases hj with ⟨rfl, rfl⟩ | ⟨-, hother⟩
      · simp only [hevents]
        exact h.events j s hi
      · exact h.events j x hother
  · -- a block: one more event
    have hnew : (s.script.block sem (.start p.disk s.events)).2.events.drop
        s.events.length = [ev] := by simp [hevents]
    have hdisk : I ev.after := hI s.tag ev (hbefore ▸ h.disk) hG
    refine ⟨?_, ?_, ?_, ?_, ?_⟩
    · simp only [Pool.stepSession, ← hafter]
      exact hdisk
    · simp only [Pool.stepSession, hnew, List.map_cons, List.map_nil]
      exact h.chained.append ⟨hbefore, hafter⟩
    · simp only [Pool.stepSession, hnew, List.map_cons, List.map_nil]
      intro entry hentry
      rcases List.mem_append.mp hentry with hentry | hentry
      · refine h.log_set hi ?_ entry hentry
        rfl
      · obtain rfl := List.mem_singleton.mp hentry
        exact ⟨hbefore ▸ h.disk, hdisk, _,
          List.getElem?_set_self (List.getElem?_eq_some_iff.mp hi).1, hG⟩
    · intro j x hj d hd
      rcases getElem?_set_cases hj with ⟨rfl, rfl⟩ | ⟨-, hother⟩
      · simp only [hevents]
        exact hsafe d hd
      · exact h.sessions j x hother d hd
    · simp only [Pool.stepSession, hnew, List.map_cons, List.map_nil, List.filter_append,
        List.map_append]
      intro j x hj
      rcases getElem?_set_cases hj with ⟨rfl, rfl⟩ | ⟨hne, hother⟩
      · refine hevents.trans ?_
        rw [Trace.start_events, ← h.events j s hi]
        simp
      · rw [h.events j x hother]
        simp [hne.symm]

/-- **Soundness of the proof rule.** If every script is safe alone, from every
database in the invariant, and its blocks keep the invariant, then every reachable
pool is sound. -/
theorem sound (hI : ∀ tag ev, I ev.before → G tag ev → I ev.after)
    (hscript : ∀ tag d, I d →
      (script tag).Safe sem I (G tag) (fun r t => Post tag r t.events) (.start d []))
    {s₀ : σ} (h₀ : I s₀) (schedule : List (Label ι)) :
    Sound sem I G Post s₀ (exec sem script s₀ schedule) := by
  have hrun : ∀ (p : Pool ι σ W χ ε α), Sound sem I G Post s₀ p →
      Sound sem I G Post s₀ (schedule.foldl (next sem script) p) := by
    induction schedule with
    | nil => exact fun p hp => hp
    | cons label schedule ih =>
      intro p hp
      refine ih _ ?_
      cases label with
      | start tag => exact hp.start hscript tag
      | block i =>
        rcases hi : p.sessions[i]? with _ | s
        · simpa only [next, hi] using hp
        · simpa only [next, hi] using hp.stepSession hI hi
  exact hrun _ (sound_init h₀)

/-- A schedule that goes on only adds to the log. -/
theorem log_prefix (p : Pool ι σ W χ ε α) (rest : List (Label ι)) :
    p.log <+: (rest.foldl (next sem script) p).log := by
  induction rest generalizing p with
  | nil => exact List.prefix_rfl
  | cons label rest ih =>
    refine List.IsPrefix.trans ?_ (ih _)
    cases label with
    | start tag => exact List.prefix_rfl
    | block i =>
      rw [next]
      split
      · exact List.prefix_append _ _
      · exact List.prefix_rfl

/-- The blocks of the log are those of the sessions. -/
theorem Sound.events_perm {s₀ : σ} {p : Pool ι σ W χ ε α} (h : Sound sem I G Post s₀ p) :
    (p.log.map Prod.snd).Perm (p.sessions.flatMap Session.events) := by
  have hpart : ∀ (i : ℕ) part, (p.sessions.map Session.events)[i]? = some part →
      part = (p.log.filter fun x => x.1 = i).map Prod.snd := by
    intro i part hi
    rw [List.getElem?_map] at hi
    obtain ⟨s, hs, rfl⟩ := Option.map_eq_some_iff.mp hi
    exact h.events i s hs
  have hperm := perm_flatten hpart
  have hall : (p.log.filter fun x => x.1 < (p.sessions.map Session.events).length) = p.log := by
    rw [List.filter_eq_self]
    intro entry hentry
    obtain ⟨-, -, s, hs, -⟩ := h.log entry hentry
    rw [List.length_map]
    exact decide_eq_true (List.getElem?_eq_some_iff.mp hs).1
  rwa [hall] at hperm

/-- What a session has done so far is the beginning of what one that is over has done. -/
theorem Sound.exists_post {s₀ : σ} {p : Pool ι σ W χ ε α} (h : Sound sem I G Post s₀ p) {i : ℕ}
    {s : Session ι σ W χ ε α} (hi : p.sessions[i]? = some s) :
    ∃ r events, Post s.tag r events ∧ s.events <+: events :=
  (h.sessions i s hi p.disk h.disk).exists_post h.disk

end Pool
