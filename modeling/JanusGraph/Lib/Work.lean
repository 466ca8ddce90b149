import JanusGraph.Lib.Interleave

/-!
# Units of work

Most scripts are units of work: they read, send statements each of which takes
effect or is undone alone, and commit at the end. What such a script does among
others is told by its *history*, the statements it sent with the database each of
them met, and by its result: `Does m o p R` says that they are always related by
`R`. Its rules follow the script, and the databases of the other processes do not
appear in them.
-/

variable {σ W χ ε ε' α β γ : Type} {sem : W → σ → Except χ (ℕ × σ)}

open Script

/-! ## Histories -/

/-- The statements of a block, each with the database it met. -/
def met (sem : W → σ → Except χ (ℕ × σ)) : σ → List W → List (σ × W)
  | _, [] => []
  | s, w :: ws => (s, w) :: met sem (applied sem s w) ws

theorem met_append (s : σ) (ws ws' : List W) :
    met sem s (ws ++ ws') = met sem s ws ++ met sem (ws.foldl (applied sem) s) ws' := by
  induction ws generalizing s with
  | nil => rfl
  | cons w ws ih => rw [List.cons_append, met, met, ih, List.foldl_cons, List.cons_append]

theorem mem_sent_of_met {s : σ} {ws : List W} {x : σ × W} (h : x ∈ met sem s ws) : x.2 ∈ ws := by
  induction ws generalizing s with
  | nil => cases h
  | cons w ws ih =>
    rcases List.mem_cons.mp h with rfl | h
    · exact List.mem_cons_self
    · exact List.mem_cons_of_mem _ (ih h)

/-- Statements that did nothing where they were sent, do nothing together. -/
theorem foldl_applied_of_met {s : σ} {ws : List W}
    (h : ∀ x ∈ met sem s ws, applied sem x.1 x.2 = x.1) : ws.foldl (applied sem) s = s := by
  induction ws with
  | nil => rfl
  | cons w ws ih =>
    have hw : applied sem s w = s := h (s, w) List.mem_cons_self
    rw [List.foldl_cons, hw]
    refine ih fun x hx => h x (List.mem_cons_of_mem _ ?_)
    rwa [hw]

/-- The history that the finished blocks of a session leave. -/
def history (sem : W → σ → Except χ (ℕ × σ)) (events : List (Event σ W)) : List (σ × W) :=
  events.flatMap fun ev => met sem ev.before ev.sent

theorem history_append (events events' : List (Event σ W)) :
    history sem (events ++ events') = history sem events ++ history sem events' :=
  List.flatMap_append

/-- A block committed what its statements did, a rejected one doing nothing, and the
invariant. -/
structure Event.Faithful (sem : W → σ → Except χ (ℕ × σ)) (I : σ → Prop) (ev : Event σ W) :
    Prop where
  after : ev.after = ev.sent.foldl (applied sem) ev.before
  inv : I ev.after

/-- A statement that is the whole history of a session is a block of its own. -/
theorem event_of_history {events : List (Event σ W)} {s : σ} {w : W}
    (h : history sem events = [(s, w)]) : ∃ ev ∈ events, ev.before = s ∧ ev.sent = [w] := by
  have hmem : (s, w) ∈ history sem events := by rw [h]; exact List.mem_singleton.mpr rfl
  obtain ⟨ev, hev, hin⟩ := List.mem_flatMap.mp hmem
  have hlen : (met sem ev.before ev.sent).length ≤ 1 := by
    obtain ⟨l, l', rfl⟩ := List.append_of_mem hev
    have := congrArg List.length h
    simp only [history, List.flatMap_append, List.flatMap_cons, List.length_append,
      List.length_singleton] at this
    omega
  refine ⟨ev, hev, ?_⟩
  rcases hsent : ev.sent with _ | ⟨w', _ | ⟨w'', ws⟩⟩
  · simp [hsent, met] at hin
  · rw [hsent, met, met, List.mem_singleton] at hin
    obtain ⟨rfl, rfl⟩ := Prod.mk.inj hin
    exact ⟨rfl, rfl⟩
  · simp [hsent, met] at hlen

/-! ### What statements add to

Something of the database that only grows, `f`, to which a statement adds what `g` says of it and
of the database it meets. -/

section

variable {f : σ → List β} {g : σ × W → List β}

/-- A block adds what its statements add. -/
theorem foldl_applied_grows (h : ∀ s w, f (applied sem s w) = f s ++ g (s, w)) (s : σ)
    (ws : List W) : f (ws.foldl (applied sem) s) = f s ++ (met sem s ws).flatMap g := by
  induction ws generalizing s with
  | nil => simp [met]
  | cons w ws ih => rw [List.foldl_cons, ih, h, met, List.flatMap_cons, List.append_assoc]

/-- Blocks one after the other add what their statements add. -/
theorem Chained.grows (h : ∀ s w, f (applied sem s w) = f s ++ g (s, w)) {s s' : σ}
    {log : List (ℕ × Event σ W)} (hchain : Chained s log s')
    (hlog : ∀ entry ∈ log, entry.2.after = entry.2.sent.foldl (applied sem) entry.2.before) :
    f s' = f s ++ (history sem (log.map Prod.snd)).flatMap g := by
  induction log generalizing s with
  | nil =>
    obtain rfl : s = s' := hchain
    simp [history]
  | cons entry log ih =>
    obtain ⟨rfl, hrest⟩ := hchain
    obtain ⟨hentry, hlog⟩ := List.forall_mem_cons.mp hlog
    rw [ih hrest hlog, hentry, foldl_applied_grows h, List.append_assoc, ← List.flatMap_append]
    rfl

/-- What was there when a statement was sent is there in the end. -/
theorem Chained.met_prefix (h : ∀ s w, f (applied sem s w) = f s ++ g (s, w)) {s s' : σ}
    {log : List (ℕ × Event σ W)} (hchain : Chained s log s')
    (hlog : ∀ entry ∈ log, entry.2.after = entry.2.sent.foldl (applied sem) entry.2.before)
    {x : σ × W} (hx : x ∈ history sem (log.map Prod.snd)) : f x.1 <+: f s' := by
  obtain ⟨ev, hev, hmet⟩ := List.mem_flatMap.mp hx
  obtain ⟨⟨i, ev⟩, hentry, rfl⟩ := List.mem_map.mp hev
  obtain ⟨log, log', rfl⟩ := List.append_of_mem hentry
  have hafter : f ev.after <+: f s' := by
    rw [hchain.split.2.grows h fun entry h' => hlog entry (by simp [h'])]
    exact List.prefix_append _ _
  refine List.IsPrefix.trans ?_ hafter
  rw [hlog _ hentry]
  clear hx hafter hchain hlog hev hentry
  generalize ev.before = before at hmet ⊢
  generalize ev.sent = sent at hmet ⊢
  induction sent generalizing before with
  | nil => cases hmet
  | cons w ws ih =>
    rw [List.foldl_cons]
    rcases List.mem_cons.mp hmet with rfl | hmet
    · rw [foldl_applied_grows h, h, List.append_assoc]
      exact List.prefix_append _ _
    · exact ih _ hmet

end

/-- A statement keeps the invariant. -/
def Keeps (sem : W → σ → Except χ (ℕ × σ)) (I : σ → Prop) (w : W) : Prop :=
  ∀ s, I s → I (applied sem s w)

/-! ## Between two steps of a unit of work -/

namespace Trace

/-- No savepoint is pending, and what the session sees is what its open block has
done. -/
structure Ready (sem : W → σ → Except χ (ℕ × σ)) (I : σ → Prop) (t : Trace σ W) : Prop where
  between : t.conn.Between
  idle : t.conn.tx = none → t.sent = []
  view : t.conn.visible = t.sent.foldl (applied sem) t.conn.disk
  inv : I t.conn.visible

/-- The session after a data-changing statement. -/
def wrote (sem : W → σ → Except χ (ℕ × σ)) (t : Trace σ W) (w : W) : Trace σ W :=
  ⟨⟨t.conn.disk, some ⟨applied sem t.conn.visible w, true, []⟩⟩, t.sent ++ [w], t.events⟩

/-- The session went from `t` to `t'` with the statements `h`. -/
def Sent (sem : W → σ → Except χ (ℕ × σ)) (t t' : Trace σ W) (h : List (σ × W)) : Prop :=
  ∃ events, t'.events = t.events ++ events ∧
    history sem events ++ met sem t'.conn.disk t'.sent = met sem t.conn.disk t.sent ++ h

theorem sent_refl (t : Trace σ W) : t.Sent sem t [] := ⟨[], by simp, by simp [history]⟩

theorem Sent.trans {t t' t'' : Trace σ W} {h h' : List (σ × W)} (hs : t.Sent sem t' h)
    (hs' : t'.Sent sem t'' h') : t.Sent sem t'' (h ++ h') := by
  obtain ⟨es, hes, hh⟩ := hs
  obtain ⟨es', hes', hh'⟩ := hs'
  refine ⟨es ++ es', by rw [hes', hes, List.append_assoc], ?_⟩
  rw [history, List.flatMap_append, List.append_assoc]
  change history sem es ++ (history sem es' ++ _) = _
  rw [hh', ← List.append_assoc, hh, List.append_assoc]

/-- The two shapes of a session between steps. -/
theorem Ready.cases {I : σ → Prop} {t : Trace σ W} (h : t.Ready sem I) :
    (t = .start t.conn.disk t.events ∧ I t.conn.disk) ∨
      ∃ v, t = ⟨⟨t.conn.disk, some ⟨v, true, []⟩⟩, t.sent, t.events⟩ ∧
        v = t.sent.foldl (applied sem) t.conn.disk ∧ I v := by
  obtain ⟨c, sent, events⟩ := t
  obtain ⟨between, idle, view, inv⟩ := h
  rcases between.cases with hc | ⟨v, hc⟩
  · simp only at hc idle inv
    rw [hc] at idle inv
    refine Or.inl ⟨?_, inv⟩
    rw [start, ← hc, idle rfl]
  · simp only at hc view inv
    rw [hc] at view inv
    exact Or.inr ⟨v, by rw [← hc], view, inv⟩

theorem ready_start {I : σ → Prop} {s : σ} (hs : I s) (events : List (Event σ W)) :
    (start s events).Ready sem I where
  between := Conn.between_idle s
  idle := fun _ => rfl
  view := rfl
  inv := hs

/-- A statement is answered by the database the session sees, in the open transaction
or in one it begins. -/
theorem Ready.step_write {I : σ → Prop} {t : Trace σ W} (h : t.Ready sem I) (w : W) :
    Conn.step sem (.write w) t.conn =
      ((sem w t.conn.visible).map Prod.fst, (t.wrote sem w).conn) := by
  rcases h.cases with ⟨heq, -⟩ | ⟨v, heq, -⟩
  · rw [heq]
    rcases hw : sem w t.conn.disk with e | ⟨n, s⟩ <;>
      simp [start, Conn.idle, Conn.step, wrote, applied, hw, Except.map]
  · rw [heq]
    rcases hw : sem w v with e | ⟨n, s⟩ <;> simp [Conn.step, wrote, applied, hw, Except.map]

theorem Ready.wrote {I : σ → Prop} {t : Trace σ W} (h : t.Ready sem I) {w : W}
    (hw : Keeps sem I w) : (t.wrote sem w).Ready sem I where
  between := Conn.between_begun _ _
  idle := by rintro ⟨⟩
  view := by
    rw [Trace.wrote, List.foldl_append, ← h.view]
    rfl
  inv := hw _ h.inv

theorem Ready.sent_wrote {I : σ → Prop} {t : Trace σ W} (h : t.Ready sem I) (w : W) :
    t.Sent sem (t.wrote sem w) [(t.conn.visible, w)] :=
  ⟨[], by simp [Trace.wrote], by simp [Trace.wrote, history, met_append, met, h.view]⟩

end Trace

/-! ## The judgement -/

/-- What is known of the transaction of a session. -/
inductive Mode (σ : Type) : Type where
  /-- nothing -/
  | any
  /-- there is none -/
  | idle
  /-- it is open, and what it sees is `s` -/
  | sees (s : σ)

/-- The session is in the mode. -/
def Mode.Holds : Mode σ → Trace σ W → Prop
  | .any, _ => True
  | .idle, t => t.conn.tx = none
  | .sees s, t => t.conn.tx ≠ none ∧ t.conn.visible = s

/-- A block in which nothing was sent leaves the mode. -/
theorem Mode.Holds.silent {m : Mode σ} {t t' : Trace σ W} (h : m.Holds t)
    (ht : t.conn.tx = none) (ht' : t'.conn.tx = none) : m.Holds t' := by
  cases m with
  | any => exact True.intro
  | idle => exact ht'
  | sees s => exact absurd ht h.1

namespace Script

variable {I : σ → Prop}

/-- Started in mode `m`, among others that keep `I`, the script ends in mode `o`; its
blocks are faithful and its result and its history are related by `R`. -/
def Does (sem : W → σ → Except χ (ℕ × σ)) (I : σ → Prop) (m o : Mode σ)
    (p : Script σ W χ ε α) (R : Except ε α → List (σ × W) → Prop) : Prop :=
  ∀ t, t.Ready sem I → m.Holds t →
    Safe sem I (Event.Faithful sem I)
      (fun r t' => t'.Ready sem I ∧ o.Holds t' ∧ ∃ h, t.Sent sem t' h ∧ R r h) p t

variable {m o u : Mode σ}

theorem Does.mono {p : Script σ W χ ε α} {R R' : Except ε α → List (σ × W) → Prop}
    (hp : Does sem I m o p R) (hR : ∀ r h, R r h → R' r h) : Does sem I m o p R' :=
  fun t ht hm => (hp t ht hm).mono fun r _ ⟨hready, hmode, h, hsent, hRh⟩ =>
    ⟨hready, hmode, h, hsent, hR r h hRh⟩

/-- What a script does in any mode, it does in the idle one. -/
theorem Does.of_any {p : Script σ W χ ε α} {R : Except ε α → List (σ × W) → Prop}
    (hp : Does sem I .any o p R) : Does sem I m o p R :=
  fun t ht _ => hp t ht True.intro

/-- Nothing has to be known of the mode it ends in. -/
theorem Does.to_any {p : Script σ W χ ε α} {R : Except ε α → List (σ × W) → Prop}
    (hp : Does sem I m o p R) : Does sem I m .any p R :=
  fun t ht hm => (hp t ht hm).mono fun _ _ ⟨hready, _, hh⟩ => ⟨hready, True.intro, hh⟩

theorem does_ret {a : α} {R : Except ε α → List (σ × W) → Prop} (h : R (.ok a) []) :
    Does sem I m m (.ret a : Script σ W χ ε α) R :=
  fun t ht hm => ⟨ht, hm, [], t.sent_refl, h⟩

theorem does_fail {e : ε} {R : Except ε α → List (σ × W) → Prop} (h : R (.error e) []) :
    Does sem I m m (.fail e : Script σ W χ ε α) R :=
  fun t ht hm => ⟨ht, hm, [], t.sent_refl, h⟩

/-- Sequencing: the histories are appended. An exception of the first part is raised
in the mode that part ends in. -/
theorem Does.bind {p : Script σ W χ ε α} {f : α → Script σ W χ ε β}
    {R : Except ε α → List (σ × W) → Prop} {R' : Except ε β → List (σ × W) → Prop}
    (hp : Does sem I m o p R)
    (hf : ∀ a h, R (.ok a) h → Does sem I o u (f a) fun r h' => R' r (h ++ h'))
    (he : ∀ e h, R (.error e) h → R' (.error e) h ∧ (u = .any ∨ u = o)) :
    Does sem I m u (p >>= f) R' := by
  intro t ht hmt
  refine safe_bind ((hp t ht hmt).mono ?_)
  rintro (e | a) t' ⟨hready, hmode, h, hsent, hR⟩
  · obtain ⟨hR', hm⟩ := he e h hR
    refine ⟨hready, ?_, h, hsent, hR'⟩
    rcases hm with rfl | rfl
    · exact True.intro
    · exact hmode
  · refine (hf a h hR t' hready hmode).mono ?_
    rintro r t'' ⟨hready', hmode', h', hsent', hR'⟩
    exact ⟨hready', hmode', h ++ h', hsent.trans hsent', hR'⟩

/-- `try`: the exception is a result. -/
theorem Does.attempt {p : Script σ W χ ε α} {R : Except ε α → List (σ × W) → Prop}
    (hp : Does sem I m o p R) :
    Does sem I m o (p.attempt : Script σ W χ ε' _) fun r h => ∃ r', r = .ok r' ∧ R r' h :=
  fun t ht hm => safe_attempt ((hp.mono fun r _ hr => ⟨r, rfl, hr⟩) t ht hm)

theorem Does.map (f : α → β) {p : Script σ W χ ε α} {R : Except ε α → List (σ × W) → Prop}
    (hp : Does sem I m o p R) :
    Does sem I m o (f <$> p) fun r h => ∃ r', r = r'.map f ∧ R r' h := by
  rw [map_eq_pure_bind]
  refine hp.bind (fun a h hR => does_ret ?_) fun e h hR => ⟨⟨_, rfl, hR⟩, Or.inr rfl⟩
  rw [List.append_nil]
  exact ⟨_, rfl, hR⟩

/-- Loop rule: each turn has its part of the history. -/
theorem does_forEach {body : γ → Script σ W χ ε α} {T : γ → List (σ × W) → Prop}
    (hbody : ∀ c, Does sem I m m (body c) fun r h => (∃ a, r = .ok a) ∧ T c h) (cs : List γ) :
    Does sem I m m (Prog.forEach body cs) fun r h =>
      (∃ as, r = .ok as) ∧ ∃ turns, h = turns.flatten ∧ List.Forall₂ T cs turns := by
  induction cs with
  | nil => exact does_ret ⟨⟨[], rfl⟩, [], rfl, .nil⟩
  | cons c cs ih =>
    refine (hbody c).bind ?_ (by rintro e h ⟨⟨a, ha⟩, -⟩; cases ha)
    rintro a h ⟨-, hT⟩
    refine ih.bind ?_ (by rintro e h ⟨⟨a, ha⟩, -⟩; cases ha)
    rintro as h' ⟨-, turns, rfl, hturns⟩
    exact does_ret ⟨⟨_, rfl⟩, h :: turns, by simp, .cons hT hturns⟩

/-! ### Statements -/

/-- A block in which nothing was sent. -/
theorem sent_silent (s s' : σ) (events : List (Event σ W)) :
    (Trace.start s events).Sent sem (.start s' (events ++ [⟨s, s, []⟩])) [] :=
  ⟨[⟨s, s, []⟩], rfl, rfl⟩

/-- The end of a transaction. -/
theorem sent_commit (d v s' : σ) (tx : Tx σ) (sent : List W) (events : List (Event σ W)) :
    (⟨⟨d, some tx⟩, sent, events⟩ : Trace σ W).Sent sem (.start s' (events ++ [⟨d, v, sent⟩])) [] :=
  ⟨[⟨d, v, sent⟩], rfl, by simp [history, met]⟩

theorem does_select {R : Except ε σ → List (σ × W) → Prop} (h : ∀ s, I s → R (.ok s) []) :
    Does sem I m m (select : Script σ W χ ε σ) R := by
  intro t ht hm
  rcases ht.cases with ⟨heq, hI⟩ | ⟨v, heq, hv, hI⟩
  · -- a block of its own
    rw [heq]
    refine (safe_ask_end rfl).mpr ⟨⟨rfl, hI⟩, fun s hs => ?_⟩
    rw [heq] at hm
    exact ⟨Trace.ready_start hs _, hm.silent rfl rfl, [],
      by simpa [Trace.event, Stmt.writes] using sent_silent t.conn.disk s t.events, h _ hI⟩
  · rw [heq] at ht hm ⊢
    refine (safe_ask_open rfl).mpr ?_
    simp only [Stmt.writes, List.append_nil]
    exact ⟨ht, hm, [], Trace.sent_refl _, h v hI⟩

/-- A statement whose errors are raised. -/
theorem does_write {raise : χ → ε} {w : W} (hw : Keeps sem I w)
    {R : Except ε ℕ → List (σ × W) → Prop}
    (h : ∀ s, I s → R (((sem w s).map Prod.fst).mapError raise) [(s, w)]) :
    Does sem I m .any (write raise w) R := by
  intro t ht _
  have hopen : (Conn.step sem (.write w) t.conn).2.tx =
      some ⟨applied sem t.conn.visible w, true, []⟩ := by rw [ht.step_write]; rfl
  have hR := h _ ht.inv
  refine (safe_ask_open hopen).mpr ?_
  rw [ht.step_write]
  rcases hsem : sem w t.conn.visible with e | ⟨n, s⟩
  · rw [hsem] at hR
    exact ⟨ht.wrote hw, True.intro, _, ht.sent_wrote w, hR⟩
  · rw [hsem] at hR
    exact ⟨ht.wrote hw, True.intro, _, ht.sent_wrote w, hR⟩

theorem does_commit {R : Except ε Unit → List (σ × W) → Prop} (h : R (.ok ()) []) :
    Does sem I m .idle (commit : Script σ W χ ε Unit) R := by
  intro t ht _
  rcases ht.cases with ⟨heq, hI⟩ | ⟨v, heq, hv, hI⟩
  · rw [heq]
    refine (safe_ask_end rfl).mpr ⟨⟨rfl, hI⟩, fun s hs => ?_⟩
    exact ⟨Trace.ready_start hs _, rfl, [], sent_silent t.conn.disk s t.events, h⟩
  · rw [heq]
    refine (safe_ask_end rfl).mpr ⟨⟨?_, hI⟩, fun s hs => ?_⟩
    · simpa [Trace.event, Stmt.writes] using hv
    · refine ⟨Trace.ready_start hs _, rfl, [], ?_, h⟩
      simpa [Trace.event, Stmt.writes] using sent_commit t.conn.disk v s _ t.sent t.events

section
variable {G : Event σ W → Prop} {Q : Except ε α → Trace σ W → Prop} {d v s₀ : σ} {b : Bool}
  {saves : List σ} {sent : List W} {events : List (Event σ W)}

/-- A statement in an open transaction. -/
theorem step_write_open (w : W) (d : σ) (tx : Tx σ) :
    Conn.step sem (.write w) ⟨d, some tx⟩ =
      ((sem w tx.view).map Prod.fst, ⟨d, some { tx with view := applied sem tx.view w }⟩) := by
  rcases h : sem w tx.view with e | ⟨n, s⟩ <;> simp [Conn.step, applied, h, Except.map]

theorem safe_write_open {w : W} {k : Except χ ℕ → Script σ W χ ε α}
    (h : Safe sem I G Q (k ((sem w v).map Prod.fst))
      ⟨⟨d, some ⟨applied sem v w, b, saves⟩⟩, sent ++ [w], events⟩) :
    Safe sem I G Q (.ask (.write w) k) ⟨⟨d, some ⟨v, b, saves⟩⟩, sent, events⟩ := by
  refine (safe_ask_open (by rw [step_write_open])).mpr ?_
  rw [step_write_open]
  exact h

theorem safe_savepoint_idle {k : Unit → Script σ W χ ε α}
    (h : Safe sem I G Q (k ()) ⟨⟨d, some ⟨d, false, [d]⟩⟩, [], events⟩) :
    Safe sem I G Q (.ask .savepoint k) (.start d events) := h

theorem safe_savepoint_open {k : Unit → Script σ W χ ε α}
    (h : Safe sem I G Q (k ()) ⟨⟨d, some ⟨v, b, v :: saves⟩⟩, sent, events⟩) :
    Safe sem I G Q (.ask .savepoint k) ⟨⟨d, some ⟨v, b, saves⟩⟩, sent, events⟩ := by
  refine (safe_ask_open rfl).mpr ?_
  simp only [Stmt.writes, List.append_nil]
  exact h

theorem safe_rollbackTo {k : Unit → Script σ W χ ε α}
    (h : Safe sem I G Q (k ()) ⟨⟨d, some ⟨s₀, b, s₀ :: saves⟩⟩, sent, events⟩) :
    Safe sem I G Q (.ask .rollbackTo k) ⟨⟨d, some ⟨v, b, s₀ :: saves⟩⟩, sent, events⟩ := by
  refine (safe_ask_open rfl).mpr ?_
  simp only [Stmt.writes, List.append_nil]
  exact h

theorem safe_release_inner {k : Unit → Script σ W χ ε α}
    (h : Safe sem I G Q (k ()) ⟨⟨d, some ⟨v, true, saves⟩⟩, sent, events⟩) :
    Safe sem I G Q (.ask .release k) ⟨⟨d, some ⟨v, true, s₀ :: saves⟩⟩, sent, events⟩ := by
  refine (safe_ask_open rfl).mpr ?_
  simp only [Stmt.writes, List.append_nil]
  exact h

/-- The release of the outermost savepoint ends the block. -/
theorem safe_release_outer {k : Unit → Script σ W χ ε α} (hG : G ⟨d, v, sent⟩)
    (h : ∀ s, I s → Safe sem I G Q (k ()) (.start s (events ++ [⟨d, v, sent⟩]))) :
    Safe sem I G Q (.ask .release k) ⟨⟨d, some ⟨v, false, [s₀]⟩⟩, sent, events⟩ := by
  refine (safe_ask_end rfl).mpr ?_
  simp only [Trace.event, Stmt.writes, List.append_nil]
  exact ⟨hG, h⟩

end

/-- The script of a guarded statement. -/
theorem guarded_eq (w : W) : (guarded w : Script σ W χ ε _) = .ask .savepoint fun _ =>
    .ask (.write w) fun
      | .ok n => .ask .release fun _ => .ret (.ok n)
      | .error e => .ask .rollbackTo fun _ => .ask .release fun _ => .ret (.error e) := by
  unfold guarded
  change Prog.ask _ _ = _
  congr 1
  funext _
  change Prog.ask _ _ = _
  congr 1
  funext r
  rcases r with e | n <;> rfl

/-- A statement in a savepoint of its own: outside a transaction it is a block. -/
theorem does_guarded {w : W} (hw : Keeps sem I w)
    {R : Except ε (Except χ ℕ) → List (σ × W) → Prop}
    (h : ∀ s, I s → R (.ok ((sem w s).map Prod.fst)) [(s, w)]) (hmode : m = .any ∨ m = .idle) :
    Does sem I m m (guarded w : Script σ W χ ε _) R := by
  intro t ht hm
  rw [guarded_eq]
  rcases ht.cases with ⟨heq, hI⟩ | ⟨v, heq, hv, hI⟩
  · have hR := h _ hI
    have hG : Event.Faithful sem I ⟨t.conn.disk, applied sem t.conn.disk w, [w]⟩ :=
      ⟨rfl, hw _ hI⟩
    rw [heq] at hm
    rw [heq]
    refine safe_savepoint_idle (safe_write_open ?_)
    rcases hsem : sem w t.conn.disk with e | ⟨n, s⟩
    · -- rolled back
      rw [hsem] at hR
      rw [applied_error hsem] at hG ⊢
      refine safe_rollbackTo (safe_release_outer hG fun s hs => ?_)
      exact ⟨Trace.ready_start hs _, hm.silent rfl rfl, _, ⟨[_], rfl, rfl⟩, hR⟩
    · rw [hsem] at hR
      rw [applied_ok hsem] at hG ⊢
      refine safe_release_outer hG fun s hs => ?_
      exact ⟨Trace.ready_start hs _, hm.silent rfl rfl, _, ⟨[_], rfl, rfl⟩, hR⟩
  · have hR := h _ hI
    -- in the transaction it is one more statement
    have hwrote : t.wrote sem w =
        ⟨⟨t.conn.disk, some ⟨applied sem v w, true, []⟩⟩, t.sent ++ [w], t.events⟩ := by
      rw [Trace.wrote, ht.view, hv]
    have hend := ht.wrote hw
    have hsent := ht.sent_wrote w
    rw [hwrote] at hend hsent
    rw [ht.view, ← hv] at hsent
    obtain rfl : m = .any := by
      rcases hmode with rfl | rfl
      · rfl
      · rw [heq] at hm
        cases hm
    rw [heq]
    refine safe_savepoint_open (safe_write_open ?_)
    rcases hsem : sem w v with e | ⟨n, s⟩
    · rw [hsem] at hR
      rw [applied_error hsem] at hend hsent ⊢
      refine safe_rollbackTo (safe_release_inner ?_)
      exact ⟨hend, True.intro, _, heq ▸ hsent, hR⟩
    · rw [hsem] at hR
      rw [applied_ok hsem] at hend hsent ⊢
      refine safe_release_inner ?_
      exact ⟨hend, True.intro, _, heq ▸ hsent, hR⟩

/-- Nothing is lost by a rollback after statements that did nothing. -/
theorem safe_rollback {t : Trace σ W} (ht : t.Ready sem I)
    (hnone : ∀ x ∈ met sem t.conn.disk t.sent, applied sem x.1 x.2 = x.1) :
    Safe sem I (Event.Faithful sem I)
      (fun r t' => t'.Ready sem I ∧ t'.conn.tx = none ∧ t.Sent sem t' [] ∧ r = .ok ())
      (rollback : Script σ W χ ε Unit) t := by
  rcases ht.cases with ⟨heq, hI⟩ | ⟨v, heq, hv, hI⟩
  · rw [heq]
    refine (safe_ask_end rfl).mpr ⟨⟨rfl, hI⟩, fun s hs => ?_⟩
    exact ⟨Trace.ready_start hs _, rfl, sent_silent t.conn.disk s t.events, rfl⟩
  · have hfold := foldl_applied_of_met hnone
    rw [hfold] at hv
    subst hv
    rw [heq]
    refine (safe_ask_end rfl).mpr ⟨⟨?_, hI⟩, fun s hs => ?_⟩
    · simpa [Trace.event, Stmt.writes] using hfold.symm
    · refine ⟨Trace.ready_start hs _, rfl, ?_, rfl⟩
      simpa [Trace.event, Stmt.writes] using
        sent_commit t.conn.disk t.conn.disk s _ t.sent t.events

/-- Nothing is lost by a rollback outside a transaction. -/
theorem does_rollback {R : Except ε Unit → List (σ × W) → Prop} (h : R (.ok ()) []) :
    Does sem I .idle .idle (rollback : Script σ W χ ε Unit) R := by
  intro t ht hidle
  have hsent : t.sent = [] := ht.idle hidle
  refine (safe_rollback ht (by simp [hsent, met])).mono ?_
  rintro r t' ⟨hready, hidle', hh, rfl⟩
  exact ⟨hready, hidle', [], hh, h⟩

/-- `with conn:` around a body that raises only after statements that did nothing. -/
theorem Does.withConn {body : Script σ W χ ε α} {R : Except ε α → List (σ × W) → Prop}
    (hbody : Does sem I .idle m body R)
    (herr : ∀ e h, R (.error e) h → ∀ x ∈ h, applied sem x.1 x.2 = x.1) :
    Does sem I .idle .idle (withConn body) R := by
  intro t ht hidle
  refine safe_bind (safe_attempt ((hbody t ht hidle).mono ?_))
  rintro (e | a) t' ⟨hready, -, h, hsent, hR⟩
  · -- raised: the open block did nothing
    have hnone : ∀ x ∈ met sem t'.conn.disk t'.sent, applied sem x.1 x.2 = x.1 := by
      obtain ⟨es, -, hh⟩ := hsent
      rw [ht.idle hidle, met, List.nil_append] at hh
      intro x hx
      refine herr e h hR x ?_
      rw [← hh]
      exact List.mem_append_right _ hx
    refine safe_bind ((safe_rollback hready hnone).mono ?_)
    rintro r t'' ⟨hready', hidle', hsent', rfl⟩
    exact ⟨hready', hidle', h, by simpa using hsent.trans hsent', hR⟩
  · have hcommit : Does sem I .any .idle (commit : Script σ W χ ε Unit)
        fun r h' => r = .ok () ∧ h' = [] := does_commit ⟨rfl, rfl⟩
    refine safe_bind ((hcommit t' hready True.intro).mono ?_)
    rintro r t'' ⟨hready', hidle', h', hsent', rfl, rfl⟩
    exact ⟨hready', hidle', h, by simpa using hsent.trans hsent', hR⟩

/-! ### Statements and what follows them -/

theorem does_select_bind {f : σ → Script σ W χ ε α} {R : Except ε α → List (σ × W) → Prop}
    (h : ∀ s, I s → Does sem I m o (f s) R) :
    Does sem I m o (select >>= f) R := by
  have hselect : Does sem I m m (select : Script σ W χ ε σ)
      fun r h => h = [] ∧ ∃ s, r = .ok s ∧ I s := does_select fun s hs => ⟨rfl, s, rfl, hs⟩
  refine hselect.bind ?_ (by rintro e _ ⟨-, s, hs, -⟩; cases hs)
  rintro a _ ⟨rfl, s, hs, hI⟩
  obtain rfl := Except.ok.inj hs
  exact h a hI

/-- A `SELECT` in a transaction sees what the transaction sees. -/
theorem does_select_sees {s : σ} {f : σ → Script σ W χ ε α}
    {R : Except ε α → List (σ × W) → Prop} (h : Does sem I (.sees s) o (f s) R) :
    Does sem I (.sees s) o (select >>= f) R := by
  rintro t ht ⟨hopen, hsees⟩
  rcases ht.cases with ⟨heq, -⟩ | ⟨v, heq, -⟩
  · rw [heq] at hopen
    exact absurd rfl hopen
  · have htx : t.conn.tx = some ⟨v, true, []⟩ := by
      rw [heq]
    refine (safe_ask_open (q := .select) (k := f) htx).mpr ?_
    simp only [Stmt.writes, List.append_nil, Conn.step_select, hsees]
    exact h t ht ⟨hopen, hsees⟩

theorem does_guarded_bind {w : W} (hw : Keeps sem I w) (hmode : m = .any ∨ m = .idle)
    {f : Except χ ℕ → Script σ W χ ε α} {R : Except ε α → List (σ × W) → Prop}
    (h : ∀ s, I s → Does sem I m o (f ((sem w s).map Prod.fst)) fun r h => R r ((s, w) :: h)) :
    Does sem I m o (guarded w >>= f) R := by
  have hguarded : Does sem I m m (guarded w : Script σ W χ ε _)
      fun r h => ∃ s, I s ∧ r = .ok ((sem w s).map Prod.fst) ∧ h = [(s, w)] :=
    does_guarded hw (fun s hs => ⟨s, hs, rfl, rfl⟩) hmode
  refine hguarded.bind ?_ (by rintro e _ ⟨s, -, hs, -⟩; cases hs)
  rintro a _ ⟨s, hI, hs, rfl⟩
  obtain rfl := Except.ok.inj hs
  exact h s hI

/-- A statement whose errors the script handles: what follows runs in its transaction. -/
theorem does_tryWrite_bind {w : W} (hw : Keeps sem I w)
    {f : Except χ ℕ → Script σ W χ ε α} {R : Except ε α → List (σ × W) → Prop}
    (h : ∀ s, I s → Does sem I (.sees (applied sem s w)) o (f ((sem w s).map Prod.fst))
      fun r h => R r ((s, w) :: h)) :
    Does sem I m o (tryWrite w >>= f) R := by
  intro t ht _
  have hopen : (Conn.step sem (.write w) t.conn).2.tx =
      some ⟨applied sem t.conn.visible w, true, []⟩ := by rw [ht.step_write]; rfl
  refine (safe_ask_open (k := f) hopen).mpr ?_
  rw [ht.step_write]
  refine (h _ ht.inv _ (ht.wrote hw) ⟨by rintro ⟨⟩, rfl⟩).mono ?_
  rintro r t' ⟨hready, hmode, h, hsent, hR⟩
  exact ⟨hready, hmode, (t.conn.visible, w) :: h, (ht.sent_wrote w).trans hsent, hR⟩

/-- A raised constraint error ends the script, with the transaction open. -/
theorem does_write_bind {raise : χ → ε} {w : W} (hw : Keeps sem I w) {f : ℕ → Script σ W χ ε α}
    {R : Except ε α → List (σ × W) → Prop}
    (herr : ∀ s e, I s → sem w s = .error e → R (.error (raise e)) [(s, w)])
    (h : ∀ s n s', I s → sem w s = .ok (n, s') →
      Does sem I .any .any (f n) fun r h => R r ((s, w) :: h)) :
    Does sem I m .any (write raise w >>= f) R := by
  have hwrite : Does sem I m .any (write raise w)
      fun r h => ∃ s, I s ∧ r = ((sem w s).map Prod.fst).mapError raise ∧ h = [(s, w)] :=
    does_write hw fun s hs => ⟨s, hs, rfl, rfl⟩
  refine hwrite.bind ?_ ?_
  · rintro a _ ⟨s, hI, hs, rfl⟩
    rcases hsem : sem w s with e | ⟨n, s'⟩
    · rw [hsem] at hs
      cases hs
    · rw [hsem] at hs
      obtain rfl : a = n := Except.ok.inj hs
      exact h s a s' hI hsem
  · rintro e _ ⟨s, hI, hs, rfl⟩
    rcases hsem : sem w s with e' | ⟨n, s'⟩
    · rw [hsem] at hs
      obtain rfl := Except.error.inj hs
      exact ⟨herr s e' hI hsem, Or.inl rfl⟩
    · rw [hsem] at hs
      cases hs

/-- The commit at the end of a body. -/
theorem does_commit_ret {a : α} {R : Except ε α → List (σ × W) → Prop} (h : R (.ok a) []) :
    Does sem I m .idle (commit >>= fun _ => (.ret a : Script σ W χ ε α)) R := by
  have hcommit : Does sem I m .idle (commit : Script σ W χ ε Unit)
      fun r h => r = .ok () ∧ h = [] := does_commit ⟨rfl, rfl⟩
  refine hcommit.bind ?_ (by rintro e _ ⟨hr, -⟩; cases hr)
  rintro _ _ ⟨-, rfl⟩
  exact does_ret h

/-- What a script does, as the proof rule of pools wants it. -/
theorem Does.safe {p : Script σ W χ ε α} {R : Except ε α → List (σ × W) → Prop}
    (hp : Does sem I .idle .idle p R) {s : σ} (hs : I s) :
    Safe sem I (Event.Faithful sem I) (fun r t => R r (history sem t.events)) p (.start s []) := by
  refine (hp _ (Trace.ready_start hs []) rfl).mono ?_
  rintro r t ⟨hready, hidle, h, ⟨es, hes, hh⟩, hR⟩
  rw [hready.idle hidle, met, List.append_nil] at hh
  simp only [Trace.start_sent, met, List.nil_append] at hh
  simp only [Trace.start_events, List.nil_append] at hes
  rwa [hes, hh]

end Script
