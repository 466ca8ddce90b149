import JanusGraph.Daemon.Probe
import JanusGraph.Lib.Exchange

/-!
# The life of the daemon

`run` of `daemon/lifespan.py`: it boots the parts of the daemon one after another, waits to be told
to stop, and closes what it has. Any of the calls it makes may raise, or outlast its timeout; what
`boot` has put into the context by then is what the `finally` block finds there.
-/

namespace JanusGraph

/-- A part of the daemon that is built, started and, but for the queue, closed again. -/
inductive Part : Type where
  | queueAdapter | embeddingClient | searchEngine | cronLoop | runner | site
  deriving DecidableEq

/-- An exception, as the handlers of `run` and `boot` tell them apart. -/
inductive BootError : Type where
  /-- `asyncio.TimeoutError` -/
  | timeout
  /-- any other `Exception`, with its text -/
  | exception (text : String)
  /-- `CancelledError` and the like, which `except Exception` lets pass -/
  | base
  deriving DecidableEq

/-- What the daemon asks of its surroundings. -/
inductive DaemonRequest : Type where
  /-- `manager.resolve_binary_paths()`, with the module's path and if it exists -/
  | resolveBinaryPaths
  /-- `restart_policy.disable` -/
  | disable (reason : String)
  | redisPing
  /-- whether the module list has FalkorDB -/
  | moduleList
  | allowProbe
  | managerStart
  | recordSuccess
  | recordFailure
  /-- the constructor of the part -/
  | build (part : Part)
  | start (part : Part)
  /-- `create_graphiti_instance` under its timeout -/
  | createGraphiti
  | buildApp
  /-- `shutdown_event.wait()` -/
  | shutdownEvent
  /-- `stop`, `close` or `cleanup` of the part, under a timeout -/
  | stop (part : Part)

/-- What a request returns. -/
abbrev DaemonRequest.Result : DaemonRequest → Type
  | .resolveBinaryPaths => String × Bool
  | .redisPing => ProbeState
  | .moduleList => Bool
  | .allowProbe => Bool
  | .managerStart => Bool
  | _ => Unit

/-- What a request returns or raises. -/
abbrev DaemonRequest.Answer (q : DaemonRequest) : Type := Except BootError q.Result

/-- A program of the daemon. -/
abbrev Lifespan (α : Type) : Type := Prog DaemonRequest DaemonRequest.Answer BootError α

/-- A program that fills the context: the parts in it outlive an exception. -/
abbrev Booting (α : Type) : Type := ExceptT BootError (StateT (List Part) Lifespan) α

/-- `await` while the context is being filled. -/
def awaiting (q : DaemonRequest) : Booting q.Result :=
  ExceptT.mk (StateT.lift (Prog.request q))

/-- `await` under a `try`. -/
def attempting (q : DaemonRequest) : Booting q.Answer :=
  ExceptT.lift (StateT.lift (Prog.request q))

/-- The part is in the context from now on. -/
def keep (part : Part) : Booting Unit := modify fun parts => parts ++ [part]

/-- `str(e)` -/
def BootError.text : BootError → String
  | .exception text => text
  | _ => ""

/-! ## Boot -/

/-- `_check_falkordb_binary` -/
def checkFalkordbBinary : Booting Unit := do
  match ← attempting .resolveBinaryPaths with
  | .error .base => throw .base
  | .error e => awaiting (.disable ("binary_resolve_failed:" ++ e.text))
  | .ok (path, found) => if !found then awaiting (.disable ("binary_missing:" ++ path))

/-- `DaemonSupervisor.probe_strict` -/
def probeStrict : Booting ProbeState := do
  let state ← awaiting .redisPing
  if state ≠ .alive then return state
  let hasFalkordb ← awaiting .moduleList
  return if hasFalkordb then .alive else .dead

/-- `DaemonSupervisor.start` -/
def supervisorStart : Booting Bool := do
  if !(← awaiting .allowProbe) then return false
  match ← attempting .managerStart with
  | .ok ok => return ok
  | .error .base => throw .base
  | .error _ => do
    awaiting .recordFailure
    return false

/-- `boot` until the database has been probed and, if need be, started -/
def attachFalkor : Booting Unit := do
  checkFalkordbBinary
  if (← probeStrict) = .alive then awaiting .recordSuccess
  else if ← supervisorStart then
    if (← probeStrict) = .alive then awaiting .recordSuccess else awaiting .recordFailure
  else awaiting .recordFailure

/-- A part is built, put into the context, and started. -/
def bring (part : Part) : Booting Unit := do
  awaiting (.build part)
  keep part
  awaiting (.start part)

/-- `_warm_graphiti_singleton`; there may be none afterwards. -/
def warmGraphitiSingleton : Booting Unit := do
  match ← attempting .createGraphiti with
  | .error .base => throw .base
  | _ => return

/-- `_build_phase3_components` -/
def buildPhase3Components : Booting Unit := do
  bring .queueAdapter
  bring .embeddingClient
  bring .searchEngine
  warmGraphitiSingleton

/-- `boot` -/
def boot : Booting Unit := do
  attachFalkor
  buildPhase3Components
  bring .cronLoop
  awaiting .buildApp
  bring .runner
  bring .site

/-! ## Shutdown -/

/-- `await` outside of `boot`: what the request raises is raised. -/
def daemonRequest (q : DaemonRequest) : Lifespan q.Result :=
  .ask q fun
    | .ok a => .ret a
    | .error e => .fail e

/-- `if ctx.part is not None: await part.stop()` -/
def stopPart (parts : List Part) (part : Part) : Lifespan Unit :=
  if part ∈ parts then daemonRequest (.stop part) else return

/-- `try: await asyncio.wait_for(…)`, with a warning for what takes too long. -/
def withinTimeout (p : Lifespan Unit) : Lifespan Unit := do
  match ← p.attempt with
  | .ok _ => return
  | .error .timeout => return
  | .error e => Prog.fail e

/-- The `finally` block of `run`. -/
def shutdown (parts : List Part) : Lifespan Unit := do
  withinTimeout (stopPart parts .cronLoop)
  -- `_shutdown_phase3_components`, both under one timeout
  withinTimeout (do
    stopPart parts .searchEngine
    stopPart parts .embeddingClient)
  withinTimeout (stopPart parts .site)
  withinTimeout (stopPart parts .runner)

/-- `run` -/
def runDaemon : Lifespan ℕ := do
  let (ended, parts) ← (ExceptT.run (do boot; awaiting .shutdownEvent)).run []
  shutdown parts
  match ended with
  | .ok _ => return 0
  | .error e => Prog.fail e

/-! ## What an exchange has done -/

/-- The parts that were built. -/
def built (l : List (Sigma DaemonRequest.Answer)) : List Part :=
  l.filterMap fun
    | ⟨.build part, .ok _⟩ => some part
    | _ => none

/-- The parts that were told to stop. -/
def stopped (l : List (Sigma DaemonRequest.Answer)) : List Part :=
  l.filterMap fun
    | ⟨.stop part, _⟩ => some part
    | _ => none

@[simp] theorem built_append (l l' : List (Sigma DaemonRequest.Answer)) :
    built (l ++ l') = built l ++ built l' := List.filterMap_append

@[simp] theorem stopped_append (l l' : List (Sigma DaemonRequest.Answer)) :
    stopped (l ++ l') = stopped l ++ stopped l' := List.filterMap_append

/-! ## Booting -/

/-- The request neither builds a part nor stops one. -/
def DaemonRequest.Quiet : DaemonRequest → Prop
  | .build _ => False
  | .stop _ => False
  | _ => True

/-- Whatever it is answered, the program builds the parts of `order` one after another and stops
none; what it has built is in the context, also when it raises. -/
def Brings {α : Type} (p : Booting α) (order : List Part) : Prop :=
  ∀ parts l res, Prog.Exchange ((ExceptT.run p).run parts) l res →
    ∃ r, res = .ok (r, parts ++ built l) ∧ built l <+: order ∧
      (∀ a, r = .ok a → built l = order) ∧ stopped l = []

section

variable {α β : Type} {p : Booting α} {order order' : List Part}

theorem Brings.bind {f : α → Booting β} (hp : Brings p order) (hf : ∀ a, Brings (f a) order') :
    Brings (p >>= f) (order ++ order') := by
  intro parts l res hex
  have hrun : (ExceptT.run (p >>= f)).run parts = (ExceptT.run p).run parts >>= fun x =>
      match x with
      | (.ok a, parts') => (ExceptT.run (f a)).run parts'
      | (.error e, parts') => Prog.ret (.error e, parts') := by
    rw [ExceptT.run_bind, StateT.run_bind]
    congr 1
    funext x
    rcases x with ⟨e | a, parts'⟩ <;> rfl
  rw [hrun, Prog.exchange_bind] at hex
  rcases hex with ⟨e, -, hp'⟩ | ⟨x, l₁, l₂, rfl, hp', hf'⟩
  · obtain ⟨r, hr, -⟩ := hp _ _ _ hp'
    cases hr
  · obtain ⟨r, hr, hprefix, hall, hstopped⟩ := hp _ _ _ hp'
    obtain rfl := Except.ok.inj hr
    rcases r with e | a
    · -- raised: the rest is skipped
      obtain ⟨rfl, rfl⟩ := Prog.exchange_ret.mp hf'
      refine ⟨.error e, ?_, ?_, by rintro a ⟨⟩, ?_⟩
      · rw [List.append_nil]
      · rw [List.append_nil]
        exact hprefix.trans (List.prefix_append _ _)
      · rw [List.append_nil]
        exact hstopped
    · obtain ⟨r', rfl, hprefix', hall', hstopped'⟩ := hf a _ _ _ hf'
      have hbuilt := hall a rfl
      refine ⟨r', ?_, ?_, fun b hb => ?_, ?_⟩
      · rw [built_append, List.append_assoc]
      · rw [built_append, hbuilt]
        exact List.prefix_append_right_inj _ |>.mpr hprefix'
      · rw [built_append, hbuilt, hall' b hb]
      · rw [stopped_append, hstopped, hstopped', List.append_nil]

theorem brings_pure (a : α) : Brings (pure a : Booting α) [] := by
  rintro parts l res ⟨⟩
  exact ⟨.ok a, by simp [built], List.prefix_rfl, fun _ _ => rfl, rfl⟩

theorem brings_throw (e : BootError) : Brings (throw e : Booting α) [] := by
  rintro parts l res ⟨⟩
  exact ⟨.error e, by simp [built], List.prefix_rfl, fun _ _ => rfl, rfl⟩

theorem built_quiet {q : DaemonRequest} (hq : q.Quiet) (a : q.Answer) : built [⟨q, a⟩] = [] := by
  cases q with
  | build part => exact hq.elim
  | _ => rfl

theorem stopped_quiet {q : DaemonRequest} (hq : q.Quiet) (a : q.Answer) :
    stopped [⟨q, a⟩] = [] := by
  cases q with
  | stop part => exact hq.elim
  | _ => rfl

theorem brings_awaiting {q : DaemonRequest} (hq : q.Quiet) : Brings (awaiting q) [] := by
  intro parts l res hex
  obtain ⟨a, l', rfl, hret⟩ := Prog.exchange_ask.mp hex
  obtain ⟨rfl, rfl⟩ := Prog.exchange_ret.mp hret
  rw [built_quiet hq, stopped_quiet hq, List.append_nil]
  exact ⟨a, rfl, List.prefix_rfl, fun _ _ => rfl, rfl⟩

theorem brings_attempting {q : DaemonRequest} (hq : q.Quiet) : Brings (attempting q) [] := by
  intro parts l res hex
  obtain ⟨a, l', rfl, hret⟩ := Prog.exchange_ask.mp hex
  obtain ⟨rfl, rfl⟩ := Prog.exchange_ret.mp hret
  rw [built_quiet hq, stopped_quiet hq, List.append_nil]
  exact ⟨.ok a, rfl, List.prefix_rfl, fun _ _ => rfl, rfl⟩

/-- A part that could be built is in the context before it is started. -/
theorem brings_part (part : Part) : Brings (bring part) [part] := by
  have hbuild : Brings (do awaiting (.build part); keep part) [part] := by
    intro parts l res hex
    obtain ⟨a, l', rfl, hrest⟩ := Prog.exchange_ask.mp hex
    rcases a with e | ⟨⟩
    · obtain ⟨rfl, rfl⟩ := Prog.exchange_ret.mp hrest
      exact ⟨.error e, by simp [built], List.nil_prefix, by rintro a ⟨⟩, rfl⟩
    · obtain ⟨rfl, rfl⟩ := Prog.exchange_ret.mp hrest
      exact ⟨.ok (), rfl, List.prefix_rfl, fun _ _ => rfl, rfl⟩
  have hbring : bring part = (do awaiting (.build part); keep part) >>= fun _ =>
      awaiting (.start part) := by
    rw [bind_assoc]
    rfl
  rw [hbring]
  exact hbuild.bind fun _ => brings_awaiting (by trivial)

theorem Brings.then {f : α → Booting β} (hp : Brings p []) (hf : ∀ a, Brings (f a) order) :
    Brings (p >>= f) order := hp.bind hf

theorem brings_checkFalkordbBinary : Brings checkFalkordbBinary [] := by
  refine (brings_attempting (by trivial)).then fun r => ?_
  rcases r with e | ⟨path, found⟩
  · cases e with
    | base => exact brings_throw _
    | _ => exact brings_awaiting (by trivial)
  · cases found with
    | false => exact brings_awaiting (by trivial)
    | true => exact brings_pure _

theorem brings_probeStrict : Brings probeStrict [] := by
  refine (brings_awaiting (by trivial)).then fun state => ?_
  split
  · exact brings_pure _
  · exact (brings_awaiting (by trivial)).then fun hasFalkordb => brings_pure _

theorem brings_supervisorStart : Brings supervisorStart [] := by
  refine (brings_awaiting (by trivial)).then fun permitted => ?_
  split
  · exact brings_pure _
  · refine (brings_attempting (by trivial)).then fun r => ?_
    rcases r with e | ok
    · cases e with
      | base => exact brings_throw _
      | _ => exact (brings_awaiting (by trivial)).then fun _ => brings_pure _
    · exact brings_pure _

theorem brings_attachFalkor : Brings attachFalkor [] := by
  refine brings_checkFalkordbBinary.then fun _ => brings_probeStrict.then fun state => ?_
  split
  · exact brings_awaiting (by trivial)
  · refine brings_supervisorStart.then fun started => ?_
    split
    · refine brings_probeStrict.then fun state' => ?_
      split
      · exact brings_awaiting (by trivial)
      · exact brings_awaiting (by trivial)
    · exact brings_awaiting (by trivial)

theorem brings_warmGraphitiSingleton : Brings warmGraphitiSingleton [] := by
  refine (brings_attempting (by trivial)).then fun r => ?_
  rcases r with e | ⟨⟩
  · cases e with
    | base => exact brings_throw _
    | _ => exact brings_pure _
  · exact brings_pure _

/-- The order in which the parts come up. -/
def bootOrder : List Part :=
  [.queueAdapter, .embeddingClient, .searchEngine, .cronLoop, .runner, .site]

theorem brings_boot : Brings boot bootOrder := by
  have hphase3 : Brings buildPhase3Components [.queueAdapter, .embeddingClient, .searchEngine] :=
    (brings_part _).bind fun _ => (brings_part _).bind fun _ => (brings_part _).bind fun _ =>
      brings_warmGraphitiSingleton
  exact brings_attachFalkor.then fun _ => hphase3.bind fun _ => (brings_part _).bind fun _ =>
    (brings_awaiting (by trivial)).then fun _ => (brings_part _).bind fun _ => brings_part _

end

/-! ## Closing -/

/-- The order in which the parts are closed; the queue is left to the end of the process. -/
def stopOrder : List Part := [.cronLoop, .searchEngine, .embeddingClient, .site, .runner]

/-- The embedding client is not closed if closing the search engine uses up their timeout. -/
def Skipped (part : Part) (l : List (Sigma DaemonRequest.Answer)) : Prop :=
  part = .embeddingClient ∧ ⟨.stop .searchEngine, .error .timeout⟩ ∈ l

/-- Of the parts in the context, the program closes those of `order` one after another; only an
exception in `E` of one of them stops it. -/
structure Closed (parts order : List Part) (E : BootError → Prop)
    (l : List (Sigma DaemonRequest.Answer)) (r : Except BootError Unit) : Prop where
  built : built l = []
  sublist : (stopped l).Sublist (order.filter (· ∈ parts))
  all : r = .ok () → ∀ part ∈ order, part ∈ parts → part ∈ stopped l ∨ Skipped part l
  raised : ∀ e, r = .error e → E e ∧ ∃ part, l.getLast? = some ⟨.stop part, .error e⟩

/-- Every exchange of the program closes the parts so. -/
def Closes (parts : List Part) (p : Lifespan Unit) (order : List Part) (E : BootError → Prop) :
    Prop :=
  ∀ l r, Prog.Exchange p l r → Closed parts order E l r

section

variable {parts order order' : List Part} {p p' : Lifespan Unit} {E : BootError → Prop}

theorem Skipped.append_left {part : Part} {l l' : List (Sigma DaemonRequest.Answer)}
    (h : Skipped part l) : Skipped part (l ++ l') := ⟨h.1, List.mem_append_left _ h.2⟩

theorem Skipped.append_right {part : Part} {l l' : List (Sigma DaemonRequest.Answer)}
    (h : Skipped part l') : Skipped part (l ++ l') := ⟨h.1, List.mem_append_right _ h.2⟩

/-- One group after the other. -/
theorem Closes.then (hp : Closes parts p order E) (hp' : Closes parts p' order' E) :
    Closes parts (p >>= fun _ => p') (order ++ order') E := by
  intro l r hex
  rcases Prog.exchange_bind.mp hex with ⟨e, rfl, h⟩ | ⟨⟨⟩, l₁, l₂, rfl, h, h'⟩
  · have hclosed := hp _ _ h
    refine ⟨hclosed.built, ?_, by rintro ⟨⟩, hclosed.raised⟩
    rw [List.filter_append]
    exact hclosed.sublist.trans (List.sublist_append_left _ _)
  · have hclosed := hp _ _ h
    have hclosed' := hp' _ _ h'
    refine ⟨?_, ?_, fun hr part hpart hmem => ?_, fun e he => ?_⟩
    · rw [built_append, hclosed.built, hclosed'.built, List.append_nil]
    · rw [stopped_append, List.filter_append]
      exact hclosed.sublist.append hclosed'.sublist
    · rw [stopped_append, List.mem_append]
      rcases List.mem_append.mp hpart with hpart | hpart
      · exact (hclosed.all rfl part hpart hmem).imp .inl Skipped.append_left
      · exact (hclosed'.all hr part hpart hmem).imp .inr Skipped.append_right
    · obtain ⟨hE, part, hlast⟩ := hclosed'.raised e he
      exact ⟨hE, part, by rw [List.getLast?_append, hlast]; rfl⟩

theorem closes_stopPart (parts : List Part) (part : Part) :
    Closes parts (stopPart parts part) [part] fun _ => True := by
  intro l r hex
  rw [stopPart] at hex
  split at hex
  · next hmem =>
    obtain ⟨a, l', rfl, hret⟩ := Prog.exchange_ask.mp hex
    have hsublist : [part].Sublist ([part].filter (· ∈ parts)) := by simp [hmem]
    rcases a with e | ⟨⟩
    · obtain ⟨rfl, rfl⟩ := Prog.exchange_fail.mp hret
      refine ⟨rfl, hsublist, by rintro ⟨⟩, ?_⟩
      rintro e' ⟨⟩
      exact ⟨trivial, part, rfl⟩
    · obtain ⟨rfl, rfl⟩ := Prog.exchange_ret.mp hret
      exact ⟨rfl, hsublist, fun _ part' hpart' _ => .inl hpart', by rintro e ⟨⟩⟩
  · next hmem =>
    obtain ⟨rfl, rfl⟩ := Prog.exchange_ret.mp hex
    refine ⟨rfl, List.nil_sublist _, fun _ part' hpart' hmem' => ?_, by rintro e ⟨⟩⟩
    obtain rfl := List.mem_singleton.mp hpart'
    exact absurd hmem' hmem

/-- A timeout ends the group, and only the group. -/
theorem Closes.withinTimeout (hp : Closes parts p order E)
    (htimeout : ∀ l, Prog.Exchange p l (.error .timeout) →
      ∀ part ∈ order, part ∈ parts → part ∈ stopped l ∨ Skipped part l) :
    Closes parts (withinTimeout p) order (· ≠ .timeout) := by
  intro l r hex
  rcases Prog.exchange_bind.mp hex with ⟨e, rfl, h⟩ | ⟨ended, l₁, l₂, rfl, h, h'⟩
  · obtain ⟨r', hr', -⟩ := Prog.exchange_attempt.mp h
    cases hr'
  · obtain ⟨r', hr', hp'⟩ := Prog.exchange_attempt.mp h
    obtain rfl := Except.ok.inj hr'
    have hclosed := hp _ _ hp'
    rcases ended with e | ⟨⟩
    · cases e with
      | timeout =>
        obtain ⟨rfl, rfl⟩ := Prog.exchange_ret.mp h'
        rw [List.append_nil]
        exact ⟨hclosed.built, hclosed.sublist, fun _ => htimeout _ hp', by rintro e ⟨⟩⟩
      | _ =>
        obtain ⟨rfl, rfl⟩ := Prog.exchange_fail.mp h'
        rw [List.append_nil]
        refine ⟨hclosed.built, hclosed.sublist, by rintro ⟨⟩, ?_⟩
        rintro e' ⟨⟩
        exact ⟨by rintro ⟨⟩, (hclosed.raised _ rfl).2⟩
    · obtain ⟨rfl, rfl⟩ := Prog.exchange_ret.mp h'
      rw [List.append_nil]
      exact ⟨hclosed.built, hclosed.sublist, hclosed.all, by rintro e ⟨⟩⟩

/-- A part whose closing raises was told to stop. -/
theorem stopPart_raised {part : Part} {l : List (Sigma DaemonRequest.Answer)} {e : BootError}
    (hex : Prog.Exchange (stopPart parts part) l (.error e)) : l = [⟨.stop part, .error e⟩] := by
  rw [stopPart] at hex
  split at hex
  · obtain ⟨a, l', rfl, hret⟩ := Prog.exchange_ask.mp hex
    rcases a with e' | ⟨⟩
    · obtain ⟨rfl, he⟩ := Prog.exchange_fail.mp hret
      rw [Except.error.inj he]
    · obtain ⟨-, he⟩ := Prog.exchange_ret.mp hret
      cases he
  · obtain ⟨-, he⟩ := Prog.exchange_ret.mp hex
    cases he

theorem closes_part (parts : List Part) (part : Part) :
    Closes parts (withinTimeout (stopPart parts part)) [part] (· ≠ .timeout) := by
  refine (closes_stopPart parts part).withinTimeout fun l hex part' hpart' _ => .inl ?_
  rw [stopPart_raised hex]
  exact hpart'

theorem closes_phase3 (parts : List Part) :
    Closes parts (withinTimeout (do
        stopPart parts .searchEngine
        stopPart parts .embeddingClient)) [.searchEngine, .embeddingClient] (· ≠ .timeout) := by
  have hpair := (closes_stopPart parts .searchEngine).then (closes_stopPart parts .embeddingClient)
  refine hpair.withinTimeout fun l hex part hpart hmem => ?_
  rcases Prog.exchange_bind.mp hex with ⟨e, he, h⟩ | ⟨⟨⟩, l₁, l₂, rfl, h, h'⟩
  · -- the search engine has used up the timeout of both
    obtain rfl := Except.error.inj he
    rw [stopPart_raised h]
    rcases List.mem_cons.mp hpart with rfl | hpart
    · exact .inl List.mem_cons_self
    · exact .inr ⟨List.mem_singleton.mp hpart, List.mem_cons_self⟩
  · rw [stopped_append, List.mem_append]
    rcases List.mem_cons.mp hpart with rfl | hpart
    · have hclosed := closes_stopPart parts .searchEngine _ _ h
      exact (hclosed.all rfl _ List.mem_cons_self hmem).imp .inl Skipped.append_left
    · rw [stopPart_raised h']
      exact .inl (.inr hpart)

theorem closes_shutdown (parts : List Part) :
    Closes parts (shutdown parts) stopOrder (· ≠ .timeout) :=
  (closes_part parts .cronLoop).then ((closes_phase3 parts).then
    ((closes_part parts .site).then (closes_part parts .runner)))

end

/-- **The daemon closes what it has opened.** Whatever its surroundings answer, and wherever `boot`
raises: the parts are built in `bootOrder`. Nothing is closed before `boot` and the wait for the
shutdown are over (`l₁` is what was exchanged up to there), and nothing built after that. Of the
parts built, in `stopOrder`, each is closed at most once; and each but the queue is, unless the
embedding client shares a timeout that the search engine has used up, or the closing of an earlier
part has raised something else, which is then what `run` raises. `run` returns 0 only if all parts
were built. -/
theorem daemon_closes {S : Type} (h : Handler DaemonRequest DaemonRequest.Answer S) (s : S) :
    ∃ l₁ l₂, (Prog.conversation h runDaemon s).1 = l₁ ++ l₂ ∧
      (∃ ended, Prog.Exchange ((ExceptT.run (do boot; awaiting .shutdownEvent)).run []) l₁
        (.ok (ended, built l₁))) ∧
      built l₁ <+: bootOrder ∧ stopped l₁ = [] ∧ built l₂ = [] ∧
      (stopped l₂).Sublist (stopOrder.filter (· ∈ built l₁)) ∧
      ((∀ part ∈ built l₁, part = .queueAdapter ∨ part ∈ stopped l₂ ∨ Skipped part l₂) ∨
        ∃ part e, e ≠ .timeout ∧ l₂.getLast? = some ⟨.stop part, .error e⟩ ∧
          (Prog.run h runDaemon s).1 = .error e) ∧
      ∀ n, (Prog.run h runDaemon s).1 = .ok n → n = 0 ∧ built l₁ = bootOrder := by
  have hex := Prog.exchange_conversation h runDaemon s
  rw [← Prog.conversation_run]
  generalize Prog.conversation h runDaemon s = conv at hex ⊢
  obtain ⟨l, r⟩ := conv
  have hboot : Brings (do boot; awaiting .shutdownEvent) bootOrder := by
    have h := brings_boot.bind fun _ => brings_awaiting (q := .shutdownEvent) (by trivial)
    rwa [List.append_nil] at h
  rcases Prog.exchange_bind.mp hex with ⟨e, -, hfirst⟩ | ⟨x, l₁, l', rfl, hfirst, hrest⟩
  · obtain ⟨ended, hres, -⟩ := hboot _ _ _ hfirst
    cases hres
  · obtain ⟨ended, hres, hprefix, hall, hstopped⟩ := hboot _ _ _ hfirst
    obtain rfl := Except.ok.inj hres
    rw [List.nil_append] at hrest hfirst
    have hmem : ∀ part ∈ built l₁, part = .queueAdapter ∨ part ∈ stopOrder := by
      intro part hpart
      have := hprefix.subset hpart
      revert this
      cases part <;> decide
    rcases Prog.exchange_bind.mp hrest with ⟨e, rfl, hclose⟩ | ⟨⟨⟩, l₂, l₃, rfl, hclose, hend⟩
    · -- a part could not be closed
      have hclosed := closes_shutdown _ _ _ hclose
      obtain ⟨he, part, hlast⟩ := hclosed.raised e rfl
      exact ⟨l₁, l', rfl, ⟨ended, hfirst⟩, hprefix, hstopped, hclosed.built, hclosed.sublist,
        .inr ⟨part, e, he, hlast, rfl⟩, by rintro n ⟨⟩⟩
    · have hclosed := closes_shutdown _ _ _ hclose
      have hempty : l₃ = [] ∧ ∀ n, r = .ok n → n = 0 ∧ ∃ a, ended = .ok a := by
        rcases ended with e | a
        · obtain ⟨rfl, rfl⟩ := Prog.exchange_fail.mp hend
          exact ⟨rfl, by rintro n ⟨⟩⟩
        · obtain ⟨rfl, rfl⟩ := Prog.exchange_ret.mp hend
          exact ⟨rfl, by rintro n ⟨⟩; exact ⟨rfl, a, rfl⟩⟩
      obtain ⟨rfl, hzero⟩ := hempty
      rw [List.append_nil]
      refine ⟨l₁, l₂, rfl, ⟨ended, hfirst⟩, hprefix, hstopped, hclosed.built, hclosed.sublist,
        .inl ?_, ?_⟩
      · intro part hpart
        exact (hmem part hpart).imp_right fun horder => hclosed.all rfl part horder hpart
      · intro n hn
        obtain ⟨rfl, a, ha⟩ := hzero n hn
        exact ⟨rfl, hall a ha⟩

/-- Surroundings in which all goes well, but for the requests that raise. -/
def surroundings (raising : DaemonRequest → Option BootError) :
    Handler DaemonRequest DaemonRequest.Answer Unit := fun q s =>
  (match raising q with
    | some e => .error e
    | none => .ok (match q with
      | .resolveBinaryPaths => ("bin/falkordb.so", true)
      | .redisPing => .alive
      | .moduleList => true
      | .allowProbe => true
      | .managerStart => true
      | .disable _ => ()
      | .recordSuccess => ()
      | .recordFailure => ()
      | .build _ => ()
      | .start _ => ()
      | .createGraphiti => ()
      | .buildApp => ()
      | .shutdownEvent => ()
      | .stop _ => ()), s)

/-- The port is taken: what is there is closed, and the exception goes on. -/
example : (Prog.conversation (surroundings fun q => match q with
      | .start .site => some (.exception "address already in use")
      | _ => none) runDaemon ()).map stopped id =
    (stopOrder, .error (.exception "address already in use")) := rfl

end JanusGraph
