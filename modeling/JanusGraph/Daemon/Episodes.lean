import JanusGraph.Lib.Python
import JanusGraph.Queue.Justified

/-!
# What clients are told

Episodes come in through two doors: `POST /episodes` of the daemon (`episodes_handler`) and the
tool `add_episode` of an MCP server. Both put an answer around what the writer behind them returns
or raises. Any number of them are at work on one queue, with the operations of the workers among
them; what an answer says of the episode is true, and stays so.

A text of a request is Unicode text. A lone surrogate, which JSON can spell, is left out.
-/

namespace JanusGraph

open Script

/-! ## `POST /episodes` -/

/-- A JSON answer of the daemon. -/
structure EpisodesReply : Type where
  status : ℕ
  body : List (String × Value)

/-- The adapter that the daemon has built, with the mode `_resolve_mode` returns. -/
structure QueueAdapter : Type where
  lockMode : LockMode
  instanceId : String
  mode : DedupMode

/-- What the handler reads of the daemon. -/
structure Daemon : Type where
  adapter : Option QueueAdapter
  /-- `__version__` -/
  version : String
  /-- `str(e)` of an exception that is not one of the queue's own -/
  str : QueueError → String

/-- A body that has passed the checks. -/
structure EpisodesBody : Type where
  content : String
  name : Option String
  groupId : String
  sourceDescription : String

/-- The checks of `episodes_handler`, in their order, with the message of the one that fails. -/
def checkBody (body : Value) : Except String EpisodesBody := do
  let fields ← match body with
    | .dict fields => pure fields
    | _ => throw "body must be a JSON object"
  let content ← match fields.lookup "content" with
    | some (.str content) =>
      if strip content = "" then throw "content must be a non-empty string" else pure content
    | _ => throw "content must be a non-empty string"
  let name ← match fields.lookup "name" with
    | none => pure none
    | some .null => pure none
    | some (.str name) => pure (some name)
    | some _ => throw "name must be a string"
  let groupId ← match fields.lookup "group_id" with
    | none => pure "graphiti_memory"
    | some (.str groupId) =>
      if groupId = "" then throw "group_id must be a non-empty string" else pure groupId
    | some _ => throw "group_id must be a non-empty string"
  let sourceDescription ← match fields.lookup "source_description" with
    | none => pure "daemon_http"
    | some (.str sourceDescription) => pure sourceDescription
    | some _ => throw "source_description must be a string"
  return { content, name, groupId, sourceDescription }

/-- `INVALID_BODY` -/
def invalidBody (message : String) : EpisodesReply :=
  ⟨422, [("code", .str "INVALID_BODY"), ("message", .str message)]⟩

/-- What the handler answers to what `enqueue_guarded` has returned or raised. -/
def Daemon.answer (d : Daemon) (adapter : QueueAdapter) : Except QueueError String → EpisodesReply
  | .ok id =>
    ⟨202, [("episode_id", .str id), ("claimed_by", .str adapter.instanceId),
      ("deduplicated", .bool false), ("daemon_version", .str d.version)]⟩
  | .error .lockMode =>
    ⟨409, [("code", .str "LOCK_MODE_MCP_ONLY"),
      ("message", .str ("DaemonLockSettings.mode = mcp_only; daemon /episodes disabled. " ++
        "Set JANUS_DAEMON__LOCK__MODE=daemon_only or dual_with_lock to opt in."))]⟩
  | .error (.episodeDuplicate existing) =>
    ⟨409, [("code", .str "DUPLICATE_EPISODE"), ("existing_episode_id", .str existing)]⟩
  | .error e =>
    ⟨503, [("code", .str "INTERNAL"), ("message", .str ("enqueue failed: " ++ d.str e))]⟩

/-- `enqueue_guarded` with a body that has passed the checks. -/
def QueueAdapter.op (adapter : QueueAdapter) (body : EpisodesBody) : Op :=
  .enqueueGuarded adapter.lockMode adapter.instanceId body.content body.groupId body.name
    body.sourceDescription adapter.mode

/-- `episodes_handler`; `json` is what `request.json()` returns or the text of what it raises. -/
def episodesHandler (sha : Sha256) (env : Env) (d : Daemon) (json : Except String Value) :
    Sql EpisodesReply :=
  match d.adapter with
  | none =>
    return ⟨503, [("code", .str "NOT_READY"), ("message", .str "queue adapter not initialized")]⟩
  | some adapter =>
    match json with
    | .error e => return invalidBody ("malformed JSON: " ++ e)
    | .ok value =>
      match checkBody value with
      | .error message => return invalidBody message
      | .ok body =>
        d.answer adapter <$> (enqueueGuarded sha env adapter.lockMode adapter.instanceId
          body.content body.groupId body.name body.sourceDescription adapter.mode).attempt

/-! ## `add_episode` -/

/-- What the tool reads of the settings of its server. -/
structure McpServer : Type where
  /-- `cfg.graphiti.group_id` -/
  groupId : String
  /-- `cfg.pipeline.dedup.mode` -/
  mode : DedupMode

/-- The arguments of the tool; `stamp` is the time in the default name. -/
structure AddEpisode : Type where
  content : String
  name : Option String := none
  sourceDescription : Option String := some "user_conversation"
  stamp : String

/-- The arguments of `queue.enqueue`. -/
def McpServer.enqueueArgs (server : McpServer) (args : AddEpisode) : EnqueueArgs where
  content := args.content
  groupId := server.groupId
  name := some (pyOr args.name ("Episode " ++ args.stamp))
  sourceDescription := pyOr args.sourceDescription "user_conversation"
  mode := server.mode

/-- The message of a duplicate. -/
def duplicateMessage (existing : Option String) : String :=
  let holder := pyOr existing ""
  if holder ≠ "" then
    "Duplicate episode rejected: an identical payload is already queued as " ++ holder ++ "."
  else
    "Duplicate episode rejected: an identical payload was already in flight, " ++
      "but the holding episode could not be identified."

/-- `None` is `null`. -/
def jsonText : Option String → Value
  | some text => .str text
  | none => .null

/-- `add_episode` -/
def addEpisode (sha : Sha256) (env : Env) (server : McpServer) (args : AddEpisode) :
    Sql (List (String × Value)) := do
  match ← (enqueue sha env (server.enqueueArgs args)).attempt with
  | .ok id =>
    return [("success", .bool true), ("queued", .bool true), ("episode_id", .str id),
      ("group_id", .str server.groupId),
      ("message", .str ("Episode accepted and queued. " ++
        "Processing handled asynchronously by worker cron."))]
  | .error (.duplicateEpisode existing _) =>
    return [("success", .bool true), ("queued", .bool false), ("duplicate", .bool true),
      ("episode_id", jsonText existing), ("existing_episode_id", jsonText existing),
      ("group_id", .str server.groupId), ("message", .str (duplicateMessage existing))]
  | .error e => Prog.fail e

/-! ## What an answer says -/

/-- What a client takes from an answer. -/
inductive Told : Type where
  /-- the episode is queued under the id -/
  | queued (id : String)
  /-- it is there already, under this id if one is given -/
  | duplicate (existing : Option String)
  | notQueued
  deriving DecidableEq

/-- The text of a field. -/
def textField (body : List (String × Value)) (field : String) : Option String :=
  match body.lookup field with
  | some (.str text) => some text
  | _ => none

/-- The status says if it is queued, the code if it is a duplicate. -/
def EpisodesReply.told (reply : EpisodesReply) : Told :=
  if reply.status = 202 then .queued ((textField reply.body "episode_id").getD "")
  else if textField reply.body "code" = some "DUPLICATE_EPISODE" then
    .duplicate (textField reply.body "existing_episode_id")
  else .notQueued

/-- The tool says it in two flags. -/
def mcpTold (reply : List (String × Value)) : Told :=
  if reply.lookup "queued" = some (.bool true) then
    .queued ((textField reply "episode_id").getD "")
  else if reply.lookup "duplicate" = some (.bool true) then
    .duplicate (textField reply "existing_episode_id")
  else .notQueued

/-- What is told of what the writer has returned or raised. -/
inductive Tells : Except QueueError String → Told → Prop where
  | queued {id : String} : Tells (.ok id) (.queued id)
  | duplicate {e : QueueError} {existing : Option String} : e.refusal = some existing →
      Tells (.error e) (.duplicate existing)
  | notQueued {e : QueueError} : Tells (.error e) .notQueued

/-- The daemon tells a client what it was told by the adapter. -/
theorem Daemon.tells_answer (d : Daemon) (adapter : QueueAdapter) (r : Except QueueError String) :
    Tells r (d.answer adapter r).told := by
  rcases r with e | id
  · cases e with
    | episodeDuplicate existing => exact .duplicate rfl
    | _ => exact .notQueued
  · exact .queued

/-! ## Calls -/

/-- What is started on the queue: an operation of a worker, or the call of a client. -/
inductive Call : Type where
  | op (st : Step)
  | episodes (env : Env) (d : Daemon) (json : Except String Value)
  | addEpisode (env : Env) (server : McpServer) (args : AddEpisode)

/-- What a call returns. -/
inductive CallAnswer : Type where
  | op (result : OpResult)
  | http (reply : EpisodesReply)
  | mcp (reply : List (String × Value))

/-- The script of a call. -/
def Call.script (sha : Sha256) : Call → Sql CallAnswer
  | .op st => .op <$> st.script sha
  | .episodes env d json => .http <$> episodesHandler sha env d json
  | .addEpisode env server args => .mcp <$> JanusGraph.addEpisode sha env server args

/-- The writer's operation behind a client's call, if the call gets that far. -/
def Call.writer : Call → Option Step
  | .op _ => none
  | .episodes env d json => do
    let adapter ← d.adapter
    let value ← json.toOption
    let body ← (checkBody value).toOption
    return ⟨env, adapter.op body⟩
  | .addEpisode env server args => some ⟨env, .enqueue (server.enqueueArgs args)⟩

/-- What a client is told by the end of its call; an exception of the tool reaches it as one. -/
def Call.told : Call → Except QueueError CallAnswer → Option Told
  | .op _, _ => none
  | _, .ok (.op _) => none
  | _, .ok (.http reply) => some reply.told
  | _, .ok (.mcp reply) => some (mcpTold reply)
  | _, .error _ => some .notQueued

/-- What is told is so of what the call has sent and seen. -/
structure Told.Holds (sha : Sha256) (writer : Option Step) (told : Told)
    (events : List (Event Db Write)) : Prop where
  queued : ∀ id, told = .queued id → ∃ st origin, writer = some st ∧
    st.newRow sha = some (id, origin) ∧
    ((history Write.exec events).flatMap inserted = [(id, origin)] ∨
      st.op.observes ∧ ∃ x ∈ history Write.exec events, id ∈ x.1.origins.map Prod.fst)
  duplicate : ∀ existing, told = .duplicate existing → ∃ st id origin payloadHash,
    writer = some st ∧ st.newRow sha = some (id, origin) ∧
    origin.canonicalHash = some payloadHash ∧
    ∃ ev ∈ events, ev.before.Refuses st.env.rank payloadHash id existing
  nothing : (∀ id, told ≠ .queued id) → (history Write.exec events).flatMap inserted = []

/-- What a client is told of the operation behind its call, is so. -/
theorem holds_of_tells {sha : Sha256} {st : Step} {r : Except QueueError String} {told : Told}
    {events : List (Event Db Write)} (htells : Tells r told)
    (hinserts : st.Inserts sha (r.map OpResult.id) (history Write.exec events))
    {id : String} {origin : Origin} (hrow : st.newRow sha = some (id, origin))
    {payloadHash : String} (hhash : origin.canonicalHash = some payloadHash)
    (hjustified : Justified st.env payloadHash id r events) :
    told.Holds sha (some st) events := by
  cases htells with
  | queued =>
    refine ⟨?_, by rintro existing ⟨⟩, fun h => absurd rfl (h _)⟩
    rintro id' ⟨⟩
    obtain ⟨hid, hadded⟩ := hinserts.returned _ rfl
    rw [hrow] at hid hadded
    obtain rfl := Option.some.inj hid
    exact ⟨st, origin, rfl, hrow, hadded.imp_right fun h => ⟨h.1, h.2.2⟩⟩
  | duplicate hrefusal =>
    refine ⟨by rintro id' ⟨⟩, ?_, fun _ => hinserts.raised _ rfl⟩
    rintro existing ⟨⟩
    exact ⟨st, id, origin, payloadHash, rfl, hrow, hhash, hjustified _ _ rfl hrefusal⟩
  | notQueued => exact ⟨by rintro id' ⟨⟩, by rintro existing ⟨⟩, fun _ => hinserts.raised _ rfl⟩

/-- A call that is turned away at the door has sent nothing. -/
theorem holds_turnedAway {sha : Sha256} {writer : Option Step} :
    Told.notQueued.Holds sha writer [] :=
  ⟨by rintro id ⟨⟩, by rintro existing ⟨⟩, fun _ => rfl⟩

/-! ## The sessions -/

/-- What is known of a call that is over. -/
def Call.Truthful (sha : Sha256) (call : Call) (r : Except QueueError CallAnswer)
    (events : List (Event Db Write)) : Prop :=
  ∀ told, call.told r = some told → told.Holds sha call.writer events

variable {sha : Sha256} {db : Db}

theorem safe_enqueueGuarded (hdb : db.Disciplined) (sha : Sha256) (env : Env)
    (adapter : QueueAdapter) (body : EpisodesBody) {told : Except QueueError String → Told}
    (htold : ∀ r, Tells r (told r)) :
    (enqueueGuarded sha env adapter.lockMode adapter.instanceId body.content body.groupId body.name
      body.sourceDescription adapter.mode).Safe Write.exec Db.Disciplined
      (Event.Faithful Write.exec Db.Disciplined)
      (fun r t => (told r).Holds sha (some ⟨env, adapter.op body⟩) t.events) (.start db []) := by
  have hsends := (sees_guardedSends sha env adapter.lockMode adapter.instanceId body.content
    body.groupId body.name body.sourceDescription adapter.mode).safe hdb
  have hsees := (sees_enqueueGuarded sha env adapter.lockMode adapter.instanceId body.content
    body.groupId body.name body.sourceDescription adapter.mode).safe hdb
  refine (hsends.and hsees).weaken (fun ev hev => hev.1) ?_
  rintro r t ⟨⟨found, -, hr⟩, hjustified⟩
  exact holds_of_tells (htold r) hr.inserts rfl rfl hjustified

/-- The daemon tells the truth. -/
theorem safe_episodesHandler (hdb : db.Disciplined) (sha : Sha256) (env : Env) (d : Daemon)
    (json : Except String Value) :
    (Call.script sha (.episodes env d json)).Safe Write.exec Db.Disciplined
      (Event.Faithful Write.exec Db.Disciplined)
      (fun r t => (Call.episodes env d json).Truthful sha r t.events) (.start db []) := by
  have hdoor : ∀ reply : EpisodesReply, reply.told = .notQueued →
      (Call.episodes env d json).Truthful sha (.ok (.http reply)) [] := by
    rintro reply hreply told ⟨⟩
    rw [hreply]
    exact holds_turnedAway
  refine safe_map ?_
  rw [episodesHandler]
  rcases hadapter : d.adapter with _ | adapter
  · exact hdoor _ rfl
  · rcases json with e | value
    · exact hdoor _ rfl
    · dsimp only
      rcases hbody : checkBody value with message | body
      · exact hdoor _ rfl
      · refine safe_map (safe_attempt ?_)
        refine (safe_enqueueGuarded hdb sha env adapter body (d.tells_answer adapter)).mono ?_
        rintro r t hholds told ⟨⟩
        have hwriter : (Call.episodes env d (.ok value)).writer = some ⟨env, adapter.op body⟩ := by
          simp [Call.writer, hadapter, hbody, Except.toOption]
        rw [hwriter]
        exact hholds

/-- So does the tool. -/
theorem safe_addEpisode (hdb : db.Disciplined) (sha : Sha256) (env : Env) (server : McpServer)
    (args : AddEpisode) :
    (Call.script sha (.addEpisode env server args)).Safe Write.exec Db.Disciplined
      (Event.Faithful Write.exec Db.Disciplined)
      (fun r t => (Call.addEpisode env server args).Truthful sha r t.events) (.start db []) := by
  have hsends := (sees_enqueueSends sha env (server.enqueueArgs args)).safe hdb
  have hsees := (sees_enqueue sha env (server.enqueueArgs args)).safe hdb
  refine safe_map (safe_bind (safe_attempt
    ((hsends.and hsees).weaken (fun ev hev => hev.1) ?_)))
  rintro r t ⟨⟨found, -, hr⟩, hjustified⟩
  have hholds : ∀ told, Tells r told →
      told.Holds sha (some ⟨env, .enqueue (server.enqueueArgs args)⟩) t.events := fun told htells =>
    holds_of_tells htells hr.inserts rfl ((server.enqueueArgs args).canonicalHash_row sha env)
      hjustified
  rcases r with e | id
  · cases e with
    | duplicateEpisode existing payloadHash =>
      rintro told ⟨⟩
      refine hholds _ (.duplicate ?_)
      cases existing <;> rfl
    | _ =>
      rintro told ⟨⟩
      exact hholds _ .notQueued
  · rintro told ⟨⟩
    exact hholds _ .queued

/-- An operation of a worker keeps the discipline; it tells nobody anything. -/
theorem safe_call (sha : Sha256) (call : Call) {db : Db} (hdb : db.Disciplined) :
    (call.script sha).Safe Write.exec Db.Disciplined (Event.Faithful Write.exec Db.Disciplined)
      (fun r t => call.Truthful sha r t.events) (.start db []) := by
  cases call with
  | op st =>
    refine safe_map ((safe_adds sha st hdb).mono fun r t _ => ?_)
    rintro told ⟨⟩
  | episodes env d json => exact safe_episodesHandler hdb sha env d json
  | addEpisode env server args => exact safe_addEpisode hdb sha env server args

/-- The calls running, and answered, on one database. -/
abbrev Calls : Type := Pool Call Db Write IntegrityError QueueError CallAnswer

/-- The calls after a schedule. -/
def runCalls (sha : Sha256) (db : Db) (schedule : List (Label Call)) : Calls :=
  Pool.exec Write.exec (Call.script sha) db schedule

theorem sound_calls (sha : Sha256) (hdb : db.Disciplined) (schedule : List (Label Call)) :
    Pool.Sound Write.exec Db.Disciplined (fun _ => Event.Faithful Write.exec Db.Disciplined)
      (Call.Truthful sha) db (runCalls sha db schedule) :=
  Pool.sound (fun _ _ _ hG => hG.inv) (fun call _ hd => safe_call sha call hd) hdb schedule

/-- **What clients are told is so.** After any schedule, in which workers and other clients go on
at any point and may die: a client that is told that its episode is queued finds it under that id
for good, as it was sent (or, after an `observe` call whose id was taken, what was there). A client
that is told of a duplicate was refused for an active episode with the same hash, or because its id
was taken; the episode it is told of held the hash, and is there for good. A client that is not
told that its episode is queued has added none. -/
theorem told_is_so (sha : Sha256) (hdb : db.Disciplined) (schedule rest : List (Label Call))
    {s : Session Call Db Write IntegrityError QueueError CallAnswer}
    (hs : s ∈ (runCalls sha db schedule).sessions) {r : Except QueueError CallAnswer}
    (hended : s.Ended r) {told : Told} (htold : s.tag.told r = some told) :
    (∀ id, told = .queued id → ∃ st origin, s.tag.writer = some st ∧
      st.newRow sha = some (id, origin) ∧
      ((id, origin) ∈ (runCalls sha db (schedule ++ rest)).disk.origins ∨
        st.op.observes ∧
          id ∈ (runCalls sha db (schedule ++ rest)).disk.origins.map Prod.fst)) ∧
    (∀ existing, told = .duplicate existing → ∃ st id origin payloadHash,
      s.tag.writer = some st ∧ st.newRow sha = some (id, origin) ∧
      origin.canonicalHash = some payloadHash ∧ ∃ ev ∈ s.events,
        ev.before.Refuses st.env.rank payloadHash id existing ∧
        ∀ holder, existing = some holder → ∃ e, ev.before.episodes.get? holder = some e ∧
          e.holds payloadHash = true ∧
          (holder, e.origin) ∈ (runCalls sha db (schedule ++ rest)).disk.origins) ∧
    ((∀ id, told ≠ .queued id) → (history Write.exec s.events).flatMap inserted = []) := by
  have hsound := sound_calls sha hdb schedule
  have hkept := (hsound.kept (sound_calls sha hdb (schedule ++ rest)) (fun _ _ hG => hG)
    Db.origins_apply).subset
  have hholds := hsound.post hs hended told htold
  refine ⟨fun id hid => ?_, fun existing hexisting => ?_, hholds.nothing⟩
  · obtain ⟨st, origin, hwriter, hrow, hadded⟩ := hholds.queued id hid
    refine ⟨st, origin, hwriter, hrow, ?_⟩
    rcases hadded with hadded | ⟨hobserves, x, hx, hmem⟩
    · refine .inl (hkept (hsound.added_subset (fun _ _ hG => hG) Db.origins_apply hs ?_))
      rw [hadded]
      exact List.mem_singleton_self _
    · -- the row it met is still there
      have hmet := hsound.met_subset (fun _ _ hG => hG) Db.origins_apply hs hx
      exact .inr ⟨hobserves, List.map_subset Prod.fst (List.Subset.trans hmet hkept) hmem⟩
  · obtain ⟨st, id, origin, payloadHash, hwriter, hrow, hhash, ev, hev, hrefuses⟩ :=
      hholds.duplicate existing hexisting
    refine ⟨st, id, origin, payloadHash, hwriter, hrow, hhash, ev, hev, hrefuses, ?_⟩
    rintro holder rfl
    obtain ⟨e, hget, hhas⟩ := hrefuses.holds
    refine ⟨e, hget, hhas, hkept ?_⟩
    refine hsound.before_subset (fun _ _ hG => hG) Db.origins_apply hs hev ?_
    exact List.mem_map.mpr ⟨(holder, e), Table.mem_rows.mpr hget, rfl⟩

/-- The daemon takes an episode, which an MCP server is then asked to take, too. -/
def twoDoors : List (Label Call) :=
  [.start (.episodes (.at 1) ⟨some ⟨.dualWithLock, "daemon:1", .enforce⟩, "1", fun _ => ""⟩
      (.ok (.dict [("content", .str "c"), ("source_description", .str "user_conversation")]))),
    .start (.addEpisode { Env.at 1 with uuid := "u", uuid_ne := by decide }
      ⟨"graphiti_memory", .enforce⟩ { content := "c", stamp := "noon" }),
    .block 0, .block 0, .block 0, .block 0, .block 1, .block 1, .block 1, .block 1, .block 1]

/-- The episode that the second client is told of is there. -/
theorem told_is_so_twoDoors :
    ∃ s ∈ (runCalls .plain Db.empty twoDoors).sessions, ∃ ev ∈ s.events, ∃ e,
      ev.before.episodes.get? (Env.at 1).uuid = some e ∧ ((Env.at 1).uuid, e.origin) ∈
        (runCalls .plain Db.empty (twoDoors ++ [])).disk.origins := by
  have hs := List.get_mem (runCalls .plain Db.empty twoDoors).sessions ⟨1, by decide⟩
  obtain ⟨r, hended, htold⟩ :
      ∃ r, ((runCalls .plain Db.empty twoDoors).sessions.get ⟨1, by decide⟩).Ended r ∧
        ((runCalls .plain Db.empty twoDoors).sessions.get ⟨1, by decide⟩).tag.told r =
          some (.duplicate (some (Env.at 1).uuid)) := ⟨.ok (.mcp _), rfl, rfl⟩
  obtain ⟨-, hduplicate, -⟩ :=
    told_is_so .plain Db.disciplined_empty twoDoors [] hs hended htold
  obtain ⟨st, id, origin, hash, -, -, -, ev, hev, -, hfound⟩ := hduplicate _ rfl
  obtain ⟨e, hget, -, hkept⟩ := hfound _ rfl
  exact ⟨_, hs, ev, hev, e, hget, hkept⟩

/-- Both are told so. -/
example : (runCalls .plain Db.empty twoDoors).sessions.map (fun s => match s.script with
    | .ret answer => s.tag.told (.ok answer)
    | _ => none) =
  [some (.queued (Env.at 1).uuid), some (.duplicate (some (Env.at 1).uuid))] := rfl

end JanusGraph
