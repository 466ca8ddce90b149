import JanusGraph.Lib.Work

/-!
# What a script has seen

`Does` tells a script by the statements it sent. A decision may rest on a `SELECT` that sent
nothing, though: `Sees` tells a script by its blocks, each of which began in a database that was
there at the time. What was read in a block is said of that database.
-/

variable {σ W χ ε ε' α β : Type} {sem : W → σ → Except χ (ℕ × σ)} {I : σ → Prop}

open Script

namespace Script

/-- Between two blocks, among others that keep `I`, the script takes faithful blocks, and its result
and its blocks are related by `R`. -/
def Sees (sem : W → σ → Except χ (ℕ × σ)) (I : σ → Prop) (p : Script σ W χ ε α)
    (R : Except ε α → List (Event σ W) → Prop) : Prop :=
  ∀ s, I s → ∀ events, Safe sem I (Event.Faithful sem I)
    (fun r t => ∃ s' blocks, I s' ∧ t = .start s' (events ++ blocks) ∧ R r blocks) p
    (.start s events)

variable {p : Script σ W χ ε α} {R R' : Except ε α → List (Event σ W) → Prop}

theorem Sees.mono (hp : Sees sem I p R) (h : ∀ r blocks, R r blocks → R' r blocks) :
    Sees sem I p R' :=
  fun s hs events => (hp s hs events).mono fun r _ ⟨s', blocks, hs', ht, hR⟩ =>
    ⟨s', blocks, hs', ht, h r blocks hR⟩

theorem sees_ret {a : α} (h : R (.ok a) []) : Sees sem I (.ret a) R :=
  fun s hs events => ⟨s, [], hs, by rw [List.append_nil], h⟩

theorem sees_fail {e : ε} (h : R (.error e) []) : Sees sem I (.fail e) R :=
  fun s hs events => ⟨s, [], hs, by rw [List.append_nil], h⟩

/-- Sequencing: the blocks are appended. -/
theorem Sees.bind {f : α → Script σ W χ ε β} {R' : Except ε β → List (Event σ W) → Prop}
    (hp : Sees sem I p R)
    (hf : ∀ a blocks, R (.ok a) blocks → Sees sem I (f a) fun r more => R' r (blocks ++ more))
    (he : ∀ e blocks, R (.error e) blocks → R' (.error e) blocks) :
    Sees sem I (p >>= f) R' := by
  intro s hs events
  refine safe_bind ((hp s hs events).mono ?_)
  rintro (e | a) t ⟨s', blocks, hs', rfl, hR⟩
  · exact ⟨s', blocks, hs', rfl, he e blocks hR⟩
  · refine (hf a blocks hR s' hs' _).mono ?_
    rintro r t ⟨s'', more, hs'', rfl, hR'⟩
    exact ⟨s'', blocks ++ more, hs'', by rw [List.append_assoc], hR'⟩

theorem Sees.attempt (hp : Sees sem I p R) :
    Sees sem I (p.attempt : Script σ W χ ε' _) fun r blocks => ∃ r', r = .ok r' ∧ R r' blocks :=
  fun s hs events => safe_attempt ((hp s hs events).mono fun r _ ⟨s', blocks, hs', ht, hR⟩ =>
    ⟨s', blocks, hs', ht, r, rfl, hR⟩)

theorem Sees.map (f : α → β) (hp : Sees sem I p R) :
    Sees sem I (f <$> p) fun r blocks => ∃ r', r = r'.map f ∧ R r' blocks :=
  fun s hs events => safe_map ((hp s hs events).mono fun r _ ⟨s', blocks, hs', ht, hR⟩ =>
    ⟨s', blocks, hs', ht, r, rfl, hR⟩)

/-- What a unit of work does, told by its blocks. -/
theorem Does.sees {R : Except ε α → List (σ × W) → Prop} (hp : Does sem I .idle .idle p R) :
    Sees sem I p fun r blocks => R r (history sem blocks) := by
  intro s hs events
  refine (hp _ (Trace.ready_start hs events) rfl).mono ?_
  rintro r t ⟨hready, hidle, h, ⟨blocks, hblocks, hh⟩, hR⟩
  rcases hready.cases with ⟨heq, hI⟩ | ⟨v, heq, -⟩
  · rw [hready.idle hidle, met, List.append_nil] at hh
    simp only [Trace.start_sent, met, List.nil_append] at hh
    subst hh
    exact ⟨t.conn.disk, blocks, hI, heq.trans (by rw [hblocks]; rfl), hR⟩
  · rw [heq] at hidle
    cases hidle

/-- A lookup sends nothing, and returns what was there when its first block began. -/
theorem sees_lookup (f : σ → α) :
    Sees sem I (withConn (select >>= fun s => (.ret (f s) : Script σ W χ ε α)))
      fun r blocks => ∃ ev, blocks.head? = some ev ∧ r = .ok (f ev.before) ∧
        history sem blocks = [] := by
  intro s hs events
  refine (safe_ask_end rfl).mpr ⟨⟨rfl, hs⟩, fun s' hs' => ?_⟩
  refine (safe_ask_end rfl).mpr ⟨⟨rfl, hs'⟩, fun s'' hs'' => ?_⟩
  refine ⟨s'', [⟨s, s, []⟩, ⟨s', s', []⟩], hs'', ?_, _, rfl, rfl, rfl⟩
  exact congrArg (Trace.start s'') (List.append_assoc events [_] [_])

/-- What a script has seen, as the proof rule of pools wants it. -/
theorem Sees.safe (hp : Sees sem I p R) {s : σ} (hs : I s) :
    Safe sem I (Event.Faithful sem I) (fun r t => R r t.events) p (.start s []) := by
  refine (hp s hs []).mono ?_
  rintro r t ⟨s', blocks, -, rfl, hR⟩
  exact hR

end Script

/-- What only grows has not shrunk since a block began. -/
theorem Chained.before_prefix {f : σ → List β} {g : σ × W → List β}
    (h : ∀ s w, f (applied sem s w) = f s ++ g (s, w)) {s s' : σ} {log : List (ℕ × Event σ W)}
    (hchain : Chained s log s')
    (hlog : ∀ entry ∈ log, entry.2.after = entry.2.sent.foldl (applied sem) entry.2.before)
    {entry : ℕ × Event σ W} (hentry : entry ∈ log) : f entry.2.before <+: f s' := by
  obtain ⟨past, rest, rfl⟩ := List.append_of_mem hentry
  obtain ⟨i, ev⟩ := entry
  have hrest := hchain.split.2.grows h fun entry hmem => hlog entry (by simp [hmem])
  rw [hrest, hlog _ hentry, foldl_applied_grows h, List.append_assoc]
  exact List.prefix_append _ _

/-- The session is over, with the result `r`. -/
def Session.Ended {ι : Type} (s : Session ι σ W χ ε α) (r : Except ε α) : Prop :=
  s.script = match r with
    | .ok a => .ret a
    | .error e => .fail e

namespace Pool

section

variable {ι : Type} {script : ι → Script σ W χ ε α} {G : ι → Event σ W → Prop}
  {Post : ι → Except ε α → List (Event σ W) → Prop} {f : σ → List β} {g : σ × W → List β} {s₀ : σ}
  {p : Pool ι σ W χ ε α} {s : Session ι σ W χ ε α}

/-- What is known of a script that is over, is known of a session that is. -/
theorem Sound.post (hsound : Sound sem I G Post s₀ p) (hs : s ∈ p.sessions) {r : Except ε α}
    (hended : s.Ended r) : Post s.tag r s.events := by
  obtain ⟨i, hi⟩ := List.mem_iff_getElem?.mp hs
  have hsafe := hsound.sessions i s hi _ hsound.disk
  rw [hended] at hsafe
  rcases r with e | a
  · exact hsafe
  · exact hsafe

/-- Every block committed what its statements did. -/
theorem Sound.faithful (hsound : Sound sem I G Post s₀ p)
    (hG : ∀ tag ev, G tag ev → ev.Faithful sem I) :
    ∀ entry ∈ p.log, entry.2.after = entry.2.sent.foldl (applied sem) entry.2.before := by
  intro entry hentry
  obtain ⟨-, -, s, -, hev⟩ := hsound.log entry hentry
  exact (hG s.tag entry.2 hev).after

/-- What was there when a session began a block is still there. -/
theorem Sound.before_subset (hsound : Sound sem I G Post s₀ p)
    (hG : ∀ tag ev, G tag ev → ev.Faithful sem I)
    (h : ∀ s w, f (applied sem s w) = f s ++ g (s, w)) (hs : s ∈ p.sessions) {ev : Event σ W}
    (hev : ev ∈ s.events) : f ev.before ⊆ f p.disk := by
  have hlog : ev ∈ p.log.map Prod.snd :=
    hsound.events_perm.mem_iff.mpr (List.mem_flatMap.mpr ⟨s, hs, hev⟩)
  obtain ⟨entry, hentry, rfl⟩ := List.mem_map.mp hlog
  exact (hsound.chained.before_prefix h (hsound.faithful hG) hentry).subset

/-- What was there when a session sent a statement is still there. -/
theorem Sound.met_subset (hsound : Sound sem I G Post s₀ p)
    (hG : ∀ tag ev, G tag ev → ev.Faithful sem I)
    (h : ∀ s w, f (applied sem s w) = f s ++ g (s, w)) (hs : s ∈ p.sessions) {x : σ × W}
    (hx : x ∈ history sem s.events) : f x.1 ⊆ f p.disk := by
  obtain ⟨ev, hev, hmet⟩ := List.mem_flatMap.mp hx
  have hlog : x ∈ history sem (p.log.map Prod.snd) :=
    List.mem_flatMap.mpr
      ⟨ev, hsound.events_perm.mem_iff.mpr (List.mem_flatMap.mpr ⟨s, hs, hev⟩), hmet⟩
  exact (hsound.chained.met_prefix h (hsound.faithful hG) hlog).subset

/-- What a session has added is there. -/
theorem Sound.added_subset (hsound : Sound sem I G Post s₀ p)
    (hG : ∀ tag ev, G tag ev → ev.Faithful sem I)
    (h : ∀ s w, f (applied sem s w) = f s ++ g (s, w)) (hs : s ∈ p.sessions) :
    (history sem s.events).flatMap g ⊆ f p.disk := by
  intro b hb
  obtain ⟨x, hx, hbx⟩ := List.mem_flatMap.mp hb
  obtain ⟨ev, hev, hmet⟩ := List.mem_flatMap.mp hx
  have hlog : x ∈ history sem (p.log.map Prod.snd) :=
    List.mem_flatMap.mpr
      ⟨ev, hsound.events_perm.mem_iff.mpr (List.mem_flatMap.mpr ⟨s, hs, hev⟩), hmet⟩
  rw [hsound.chained.grows h (hsound.faithful hG)]
  exact List.mem_append_right _ (List.mem_flatMap.mpr ⟨x, hlog, hbx⟩)

/-- What only grows is still there when the schedule goes on. -/
theorem Sound.kept {schedule rest : List (Label ι)}
    (hsound : Sound sem I G Post s₀ (exec sem script s₀ schedule))
    (hlater : Sound sem I G Post s₀ (exec sem script s₀ (schedule ++ rest)))
    (hG : ∀ tag ev, G tag ev → ev.Faithful sem I)
    (h : ∀ s w, f (applied sem s w) = f s ++ g (s, w)) :
    f (exec sem script s₀ schedule).disk <+: f (exec sem script s₀ (schedule ++ rest)).disk := by
  have hexec : exec sem script s₀ (schedule ++ rest) =
      rest.foldl (next sem script) (exec sem script s₀ schedule) := List.foldl_append
  obtain ⟨more, hmore⟩ : (exec sem script s₀ schedule).log <+:
      (rest.foldl (next sem script) (exec sem script s₀ schedule)).log := log_prefix _ rest
  have hchain := hlater.chained
  have hlog := hlater.faithful hG
  rw [hexec] at hchain hlog ⊢
  rw [← hmore] at hchain hlog
  rw [(hsound.chained.rest hchain).grows h
    fun entry hentry => hlog entry (List.mem_append_right _ hentry)]
  exact List.prefix_append _ _

end

end Pool
