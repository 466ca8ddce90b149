import JanusGraph.Queue.DeadLetters
import JanusGraph.Queue.Enqueue
import JanusGraph.Queue.IndexInvariant
import JanusGraph.Queue.Rows

/-!
# What the payload hash tells apart

`canonical_payload_hash` of `core/payload_hash.py` joins its three texts with a `|` that it
does not escape. Its module docstring asserts that every collision needs a `|` in a group
id. A `|` in a source description is enough: the group id and the beginning of the
description can be read as the end of the content.

* **The text.** The preimages of two triples are equal exactly if the triples are, or one is a
  shift of the other (`preimage_eq_iff`). The longer source description is cut where the shorter
  one begins, and a group id without a `|` is the last field of what stands before it
  (`last_field`).
* **The rows.** Every row of a run carries the hash of the payload it stores
  (`runSteps_stamped`), so that a hash that is found stands for a payload
  (`Episode.Stamped.holds_iff`).
* **The rejection.** An `enforce` call is rejected exactly if its id is taken or an active row
  holds its hash (`EnqueueArgs.rejected_iff`), and by the two parts above that is a true
  duplicate or one of the cases of `EnqueueArgs.Misled`.
-/

namespace JanusGraph

/-! ## Joined texts -/

/-- **The last field** of a text that is joined with separators, if it has none itself: it
ends whatever comes after another separator of the text. -/
theorem last_field {α : Type} {sep : α} {p q g m : List α} (hg : sep ∉ g)
    (h : (p ++ [sep]) ++ g = (q ++ [sep]) ++ m) :
    ∃ r, p ++ [sep] = (q ++ [sep]) ++ r ∧ m = r ++ g := by
  rcases List.append_eq_append_iff.mp h with ⟨r, hq, hgr⟩ | ⟨r, hp, hm⟩
  · -- the other separator would be inside the field
    rcases List.eq_nil_or_concat r with rfl | ⟨r', x, rfl⟩
    · exact ⟨[], by simpa using hq.symm, by simpa using hgr.symm⟩
    · have hx : [sep] = [x] := by
        rw [List.concat_eq_append, ← List.append_assoc] at hq
        exact (List.append_inj' hq rfl).2
      refine absurd ?_ hg
      rw [hgr, List.concat_eq_append, List.cons.inj hx |>.1]
      simp
  · exact ⟨r, hp, hm⟩

/-- What `canonical_payload_hash` is taken of. -/
structure EpisodeTriple : Type where
  content : String
  groupId : String
  sourceDescription : String
  deriving DecidableEq

namespace EpisodeTriple

/-- The text that is hashed. -/
def preimage (t : EpisodeTriple) : String :=
  t.content ++ "|" ++ t.groupId ++ "|" ++ t.sourceDescription

/-- The group id has no `|`. -/
def PipeFree (t : EpisodeTriple) : Prop := '|' ∉ t.groupId.toList

instance (t : EpisodeTriple) : Decidable t.PipeFree := inferInstanceAs (Decidable (_ ∉ _))

/-- The content of `t'` ends with the group id of `t` and what its source description has
before the group id and the source description of `t'`. -/
def Shifted (t t' : EpisodeTriple) : Prop :=
  ∃ mid, t.sourceDescription = mid ++ t'.groupId ++ "|" ++ t'.sourceDescription ∧
    t'.content ++ "|" = t.content ++ "|" ++ t.groupId ++ "|" ++ mid

variable {t t' : EpisodeTriple}

theorem Shifted.preimage_eq (h : t.Shifted t') : t.preimage = t'.preimage := by
  obtain ⟨mid, hsource, hcontent⟩ := h
  rw [preimage, preimage, hcontent, hsource]
  simp only [String.append_assoc]

/-- A shift makes the source description shorter. -/
theorem Shifted.ne (h : t.Shifted t') : t ≠ t' := by
  obtain ⟨mid, hsource, -⟩ := h
  rintro rfl
  have hlen := congrArg String.length hsource
  simp only [String.length_append] at hlen
  have hsep : "|".length = 1 := rfl
  omega

theorem toList_preimage (t : EpisodeTriple) :
    t.preimage.toList = (t.content.toList ++ ['|'] ++ t.groupId.toList ++ ['|']) ++
      t.sourceDescription.toList := by
  simp [preimage]

/-- The longer source description is the one that is cut. -/
theorem eq_or_shifted_of_append (hpipe : t.PipeFree) (hpipe' : t'.PipeFree) {m : List Char}
    (hfields : t'.content.toList ++ ['|'] ++ t'.groupId.toList ++ ['|'] =
      (t.content.toList ++ ['|'] ++ t.groupId.toList ++ ['|']) ++ m)
    (hsource : t.sourceDescription.toList = m ++ t'.sourceDescription.toList) :
    t = t' ∨ t.Shifted t' := by
  rcases List.eq_nil_or_concat m with rfl | ⟨m', x, rfl⟩
  · left
    rw [List.append_nil] at hfields
    have hends := (List.append_inj' hfields rfl).1
    obtain ⟨r, hcontent, hgroup⟩ := last_field hpipe' hends
    obtain ⟨r', hcontent', hgroup'⟩ := last_field hpipe hends.symm
    -- each group id ends the other
    have hr : r = [] := by
      have hlen := congrArg List.length hgroup
      have hlen' := congrArg List.length hgroup'
      rw [List.length_append] at hlen hlen'
      exact List.length_eq_zero_iff.mp (by omega)
    subst hr
    rw [List.append_nil] at hcontent
    obtain ⟨c, g, s⟩ := t
    obtain ⟨c', g', s'⟩ := t'
    rw [EpisodeTriple.mk.injEq]
    exact ⟨String.toList_injective (List.append_inj' hcontent rfl).1.symm,
      String.toList_injective (by simpa using hgroup),
      String.toList_injective (by simpa using hsource)⟩
  · right
    rw [List.concat_eq_append] at hfields hsource
    rw [← List.append_assoc] at hfields
    obtain ⟨hends, hx⟩ := List.append_inj' hfields rfl
    obtain ⟨r, hcontent, rfl⟩ := last_field hpipe' hends
    refine ⟨String.ofList r, String.toList_injective ?_, String.toList_injective ?_⟩
    · rw [hsource, ← hx]
      simp
    · simpa using hcontent

/-- **Collisions, exactly**, between triples whose group ids have no `|`. -/
theorem preimage_eq_iff (hpipe : t.PipeFree) (hpipe' : t'.PipeFree) :
    t.preimage = t'.preimage ↔ t = t' ∨ t.Shifted t' ∨ t'.Shifted t := by
  constructor
  · intro h
    have hlist := congrArg String.toList h
    rw [toList_preimage, toList_preimage] at hlist
    rcases List.append_eq_append_iff.mp hlist with ⟨m, hfields, hsource⟩ | ⟨m, hfields, hsource⟩
    · exact (eq_or_shifted_of_append hpipe hpipe' hfields hsource).imp_right .inl
    · rcases eq_or_shifted_of_append hpipe' hpipe hfields hsource with rfl | hshifted
      · exact .inl rfl
      · exact .inr (.inr hshifted)
  · rintro (rfl | h | h)
    · rfl
    · exact h.preimage_eq
    · exact h.preimage_eq.symm

/-- Two triples are told apart unless one is a shift of the other. -/
theorem told_apart_iff (hpipe : t.PipeFree) (hpipe' : t'.PipeFree) :
    (t.preimage = t'.preimage → t = t') ↔ ¬ t.Shifted t' ∧ ¬ t'.Shifted t := by
  rw [preimage_eq_iff hpipe hpipe']
  constructor
  · exact fun h => ⟨fun hshifted => hshifted.ne (h (.inr (.inl hshifted))),
      fun hshifted => hshifted.ne (h (.inr (.inr hshifted))).symm⟩
  · rintro ⟨hnot, hnot'⟩ (rfl | hshifted | hshifted)
    · rfl
    · exact absurd hshifted hnot
    · exact absurd hshifted hnot'

end EpisodeTriple

/-! ## The triple of a payload -/

/-- `payload.get(key)`; a JSON `null` is `None` -/
def Json.get (fields : List (String × Json)) (key : String) : Option Json :=
  match fields.lookup key with
  | none => none
  | some .null => none
  | some j => some j

/-- A text that can be encoded. -/
def Json.text : Json → Option String
  | .str s => some s
  | _ => none

/-- What the triple of a payload comes to. -/
inductive TripleReading : Type where
  /-- not a dict, or a field is `None` -/
  | incomplete
  /-- `canonical_payload_hash` raises: a field is no text, or one that UTF-8 cannot encode -/
  | unhashable
  | triple (t : EpisodeTriple)
  deriving DecidableEq

/-- `content`, `group_id` and `source_description` of a payload, as the backfill and the
backstop read them. -/
def Json.readTriple : Json → TripleReading
  | .obj fields =>
    match get fields "content", get fields "group_id", get fields "source_description" with
    | some content, some groupId, some sourceDescription =>
      match content.text, groupId.text, sourceDescription.text with
      | some content, some groupId, some sourceDescription =>
        .triple ⟨content, groupId, sourceDescription⟩
      | _, _, _ => .unhashable
    | _, _, _ => .incomplete
  | _ => .incomplete

/-! ## What the rows are stamped with -/

/-- The row was enqueued for the triple. -/
def Episode.Stores (t : EpisodeTriple) (e : Episode) : Prop :=
  ∃ name, e.payloadJson = (Payload.mk t.content t.groupId name t.sourceDescription).dumps

/-- The canonical hash of the row is that of its payload. -/
def Episode.Stamped (sha : Sha256) (e : Episode) : Prop :=
  ∃ t, e.Stores t ∧ e.canonicalHash = some (sha.hexdigest t.preimage)

/-- Every row is stamped with the hash of its payload. -/
def Db.Stamped (sha : Sha256) (db : Db) : Prop :=
  ∀ id e, db.episodes.get? id = some e → e.Stamped sha

/-- An active row holds the triple. -/
def Db.HoldsActive (db : Db) (t : EpisodeTriple) : Prop :=
  ∃ id e, db.episodes.get? id = some e ∧ e.status ∈ activeStatuses ∧ e.Stores t

/-- What the call hashes. -/
def EnqueueArgs.triple (args : EnqueueArgs) : EpisodeTriple :=
  ⟨args.content, args.groupId, args.sourceDescription⟩

/-- The triple is read back from the row. -/
theorem Episode.Stores.readTriple {e : Episode} {t : EpisodeTriple} (h : e.Stores t) :
    e.payloadJson.loads.readTriple = .triple t := by
  obtain ⟨name, hpayload⟩ := h
  rw [hpayload]
  rfl

/-- A row is enqueued for one triple only. -/
theorem Episode.Stores.unique {e : Episode} {t t' : EpisodeTriple} (h : e.Stores t)
    (h' : e.Stores t') : t = t' := by
  obtain ⟨name, hpayload⟩ := h
  obtain ⟨name', hpayload'⟩ := h'
  have hsame := Payload.dumps_injective (hpayload.symm.trans hpayload')
  rw [Payload.mk.injEq] at hsame
  obtain ⟨hcontent, hgroup, -, hsource⟩ := hsame
  cases t
  cases t'
  rw [EpisodeTriple.mk.injEq]
  exact ⟨hcontent, hgroup, hsource⟩

/-- A stamped row holds the hash of a triple exactly if it holds the hash of its own. -/
theorem Episode.Stamped.holds_iff {sha : Sha256} {e : Episode} (h : e.Stamped sha) (hash : String) :
    e.holds hash = true ↔ ∃ t, e.Stores t ∧ sha.hexdigest t.preimage = hash := by
  obtain ⟨t, hstores, hhash⟩ := h
  rw [Episode.holds, hhash, beq_iff_eq]
  refine ⟨fun heq => ⟨t, hstores, heq⟩, ?_⟩
  rintro ⟨t', hstores', heq⟩
  rw [hstores.unique hstores']
  exact heq

/-- A row keeps its stamp when its payload and its canonical hash stay. -/
theorem Episode.Stamped.of_eq {sha : Sha256} {e e' : Episode} (h : e.Stamped sha)
    (hpayload : e'.payloadJson = e.payloadJson) (hhash : e'.canonicalHash = e.canonicalHash) :
    e'.Stamped sha := by
  obtain ⟨t, ⟨name, hname⟩, hstamp⟩ := h
  exact ⟨t, ⟨name, hpayload.trans hname⟩, hhash.trans hstamp⟩

/-- No update writes the payload or the canonical hash. -/
theorem Episode.Stamped.set {sha : Sha256} {e : Episode} (h : e.Stamped sha) (u : EpisodeUpdate) :
    (u.set e).Stamped sha := by
  cases u with
  | requeue now extra => cases extra <;> exact h.of_eq rfl rfl
  | _ => exact h.of_eq rfl rfl

/-- The stamp is one of the invariants of rows. -/
theorem rowInvariant_stamped (sha : Sha256) (now : ℕ) :
    RowInvariant sha now (Episode.Stamped sha) where
  inserted content groupId name sourceDescription _ _ _ :=
    ⟨⟨content, groupId, sourceDescription⟩, ⟨name, rfl⟩, rfl⟩
  claimed _ h := h.of_eq rfl rfl
  updated u _ _ h := h.set u

/-- **Run.** Every row of every run is stamped with the hash of its payload. -/
theorem runSteps_stamped (sha : Sha256) (steps : List Step) :
    (runSteps sha Db.empty steps).Stamped sha := by
  have hempty : Db.empty.Rows (Episode.Stamped sha) := fun _ _ he => by cases he
  exact runSteps_rows (fun st _ => rowInvariant_stamped sha st.env.now) hempty

/-! ## Rejections -/

/-- The call raises `DuplicateEpisodeError`. -/
def EnqueueArgs.Rejected (args : EnqueueArgs) (sha : Sha256) (env : Env) (db : Db) : Prop :=
  ∃ existing hash,
    (enqueue sha env args).result Write.exec db = .error (.duplicateEpisode existing hash)

/-- An `INSERT` goes through if its id is free and the index accepts it. -/
theorem Db.insertEpisode_isOk_iff {db : Db} {id : String} {e : Episode} :
    (∃ n db', Write.exec (.insertEpisode id e) db = .ok (n, db')) ↔
      db.episodes.get? id = none ∧ db.conflicts id e = false := by
  rw [Write.exec]
  rcases db.episodes.get? id with _ | e'
  · rcases db.conflicts id e with _ | _ <;> simp
  · simp

/-- An `enforce` call is rejected exactly if an active row holds its hash, or any row its
id. -/
theorem EnqueueArgs.rejected_iff {args : EnqueueArgs} (hmode : args.mode = .enforce) (sha : Sha256)
    (env : Env) (db : Db) :
    args.Rejected sha env db ↔ (∃ id e, db.episodes.get? id = some e ∧ e.status ∈ activeStatuses ∧
        e.holds (args.canonicalHash sha) = true) ∨
      ∃ e, db.episodes.get? (args.epId env) = some e := by
  rw [EnqueueArgs.Rejected, Script.result_eq (run_enqueue sha env args db)]
  simp only [outcome, hmode]
  rcases hdup : db.activeDuplicate env.rank (args.canonicalHash sha) with _ | existing
  · have hnone := Db.activeDuplicate_eq_none_iff.mp hdup
    have hnot : ¬ ∃ id e, db.episodes.get? id = some e ∧ e.status ∈ activeStatuses ∧
        e.holds (args.canonicalHash sha) = true := by
      rintro ⟨id, e, he, hactive, hholds⟩
      rw [hnone id e he hactive] at hholds
      cases hholds
    -- the index has nothing to object to either
    have hacc : db.conflicts (args.epId env) (args.row sha env) = false := by
      rw [Db.conflicts, Bool.and_eq_false_iff, List.any_eq_false]
      refine .inr ?_
      rintro ⟨id, e⟩ hmem
      have hkey : (args.row sha env).indexKey = some (args.canonicalHash sha) := by
        simp [row, hmode, newEpisode, Episode.indexKey, activeStatuses]
      simp only [hkey, ne_eq, Bool.and_eq_true, decide_eq_true_eq, not_and]
      rintro - hrow
      obtain ⟨-, hactive, hhash⟩ := Episode.indexKey_eq_some.mp hrow
      have hholds := hnone id e (Table.mem_rows.mp hmem) hactive
      simp [Episode.holds, hhash] at hholds
    rw [or_iff_right hnot]
    rcases hid : db.episodes.get? (args.epId env) with _ | e
    · obtain ⟨n, db', hins⟩ := Db.insertEpisode_isOk_iff.mpr ⟨hid, hacc⟩
      simp [hins]
    · have hins : Write.exec (.insertEpisode (args.epId env) (args.row sha env)) db =
          .error .primaryKey := by
        simp [Write.exec, hid]
      simp [hins]
  · refine iff_of_true (by simp) (.inl ?_)
    by_contra hnone
    have hempty : db.activeDuplicate env.rank (args.canonicalHash sha) = none := by
      refine Db.activeDuplicate_eq_none_iff.mpr fun id e he hactive => ?_
      by_contra hholds
      exact hnone ⟨id, e, he, hactive, by simpa using hholds⟩
    rw [hdup] at hempty
    cases hempty

/-- What a call can be rejected for besides a true duplicate: a row under its id, or an
active row whose triple is a shift of its own. -/
def EnqueueArgs.Misled (args : EnqueueArgs) (env : Env) (db : Db) : Prop :=
  (∃ e, db.episodes.get? (args.epId env) = some e) ∨
    ∃ t, db.HoldsActive t ∧ (t.Shifted args.triple ∨ args.triple.Shifted t)

/-- No active row was enqueued with a `|` in its group id. -/
def Db.PipeFree (db : Db) : Prop := ∀ t, db.HoldsActive t → t.PipeFree

/-- **Why an `enforce` call is rejected**: an active row holds its triple, or it was misled.
The two do not exclude each other. -/
theorem EnqueueArgs.rejected_iff_misled {args : EnqueueArgs} (hmode : args.mode = .enforce)
    {sha : Sha256} (hsha : Function.Injective sha.hexdigest) (env : Env) {db : Db}
    (hstamped : db.Stamped sha) (hargs : args.triple.PipeFree) (hdb : db.PipeFree) :
    args.Rejected sha env db ↔ db.HoldsActive args.triple ∨ args.Misled env db := by
  have hholds : (∃ id e, db.episodes.get? id = some e ∧ e.status ∈ activeStatuses ∧
      e.holds (args.canonicalHash sha) = true) ↔
      ∃ t, db.HoldsActive t ∧ t.preimage = args.triple.preimage := by
    constructor
    · rintro ⟨id, e, he, hactive, hhash⟩
      obtain ⟨t, hstores, hdigest⟩ := ((hstamped id e he).holds_iff _).mp hhash
      exact ⟨t, ⟨id, e, he, hactive, hstores⟩, hsha hdigest⟩
    · rintro ⟨t, ⟨id, e, he, hactive, hstores⟩, hsame⟩
      exact ⟨id, e, he, hactive, ((hstamped id e he).holds_iff _).mpr ⟨t, hstores, congrArg _ hsame⟩⟩
  have hmet : (∃ t, db.HoldsActive t ∧ t.preimage = args.triple.preimage) ↔
      db.HoldsActive args.triple ∨
        ∃ t, db.HoldsActive t ∧ (t.Shifted args.triple ∨ args.triple.Shifted t) := by
    constructor
    · rintro ⟨t, ht, hsame⟩
      rcases (EpisodeTriple.preimage_eq_iff (hdb t ht) hargs).mp hsame with rfl | hshifted
      · exact .inl ht
      · exact .inr ⟨t, ht, hshifted⟩
    · rintro (ht | ⟨t, ht, hshifted⟩)
      · exact ⟨_, ht, rfl⟩
      · exact ⟨t, ht, (EpisodeTriple.preimage_eq_iff (hdb t ht) hargs).mpr (.inr hshifted)⟩
  rw [rejected_iff hmode, hholds, hmet, Misled, or_assoc]
  exact or_congr_right or_comm

/-- **Only true duplicates are rejected, exactly when** no text is a shift of another. Two
triples whose group ids have no `|` are told apart unless one is a shift of the other; and an
`enforce` call that is rejected has met its own triple in every case but one: its id is
taken, or it met a shift of its triple, and nobody holds the triple itself. The three parts
are joined with a `|` that none of them escapes, and a source description may have one as
well as a group id. -/
theorem only_true_duplicates (sha : Sha256) (steps : List Step) (env : Env) (args : EnqueueArgs)
    (t t' : EpisodeTriple) :
    (t.PipeFree → t'.PipeFree →
      ((t.preimage = t'.preimage → t = t') ↔ ¬ t.Shifted t' ∧ ¬ t'.Shifted t)) ∧
    (Function.Injective sha.hexdigest → args.mode = .enforce → args.triple.PipeFree →
      (runSteps sha Db.empty steps).PipeFree →
      ((args.Rejected sha env (runSteps sha Db.empty steps) →
          (runSteps sha Db.empty steps).HoldsActive args.triple) ↔
        (args.Misled env (runSteps sha Db.empty steps) →
          (runSteps sha Db.empty steps).HoldsActive args.triple))) := by
  refine ⟨fun hpipe hpipe' => EpisodeTriple.told_apart_iff hpipe hpipe', ?_⟩
  intro hsha hmode hargs hdb
  rw [EnqueueArgs.rejected_iff_misled hmode hsha env (runSteps_stamped sha steps) hargs hdb]
  exact ⟨fun h hmisled => h (.inr hmisled), fun h hrejected => hrejected.elim id h⟩

/-- An `enforce` call. -/
def memoryCall (id content sourceDescription : String) : EnqueueArgs :=
  { content, groupId := "g", sourceDescription, episodeId := some id, mode := .enforce }

/-- The queue after one such call. -/
def oneMemory (content sourceDescription : String) : Db :=
  runSteps .plain Db.empty [⟨.at 1, .enqueue (memoryCall "e" content sourceDescription)⟩]

theorem oneMemory_holdsActive {t : EpisodeTriple}
    (h : (oneMemory "a|g|b" "c").HoldsActive t) : t = (memoryCall "e" "a|g|b" "c").triple := by
  obtain ⟨id, e, he, -, hstores⟩ := h
  have hput : (oneMemory "a|g|b" "c").episodes =
      Table.empty.put ((memoryCall "e" "a|g|b" "c").epId (.at 1))
        ((memoryCall "e" "a|g|b" "c").row .plain (.at 1)) := rfl
  rw [hput, Table.get?_put] at he
  split at he
  · obtain rfl := Option.some.inj he
    exact hstores.unique ⟨_, rfl⟩
  · cases he

/-- A call that is rejected for its own triple. -/
theorem only_true_duplicates_same :
    (memoryCall "f" "a|g|b" "c").Rejected .plain (.at 2) (oneMemory "a|g|b" "c") →
      (oneMemory "a|g|b" "c").HoldsActive (memoryCall "e" "a|g|b" "c").triple := by
  have hholds : (oneMemory "a|g|b" "c").HoldsActive (memoryCall "e" "a|g|b" "c").triple :=
    ⟨(memoryCall "e" "a|g|b" "c").epId (.at 1), _, rfl, by decide, _, rfl⟩
  have hsha : Function.Injective Sha256.plain.hexdigest := fun text text' h =>
    (String.append_right_inj "#").mp h
  have hpipe : (oneMemory "a|g|b" "c").PipeFree := by
    intro t ht
    rw [oneMemory_holdsActive ht]
    decide
  exact ((only_true_duplicates .plain _ (.at 2) (memoryCall "f" "a|g|b" "c")
    (memoryCall "e" "a|g|b" "c").triple (memoryCall "f" "a|g|b" "c").triple).2 hsha rfl (by decide)
    hpipe).mpr fun _ => hholds

/-- A `|` in a content and one in a source description, and none in a group id. -/
theorem not_only_true_duplicates :
    (memoryCall "e" "a|g|b" "c").triple.PipeFree ∧ (memoryCall "f" "a" "b|g|c").triple.PipeFree ∧
      (memoryCall "e" "a|g|b" "c").triple.preimage = (memoryCall "f" "a" "b|g|c").triple.preimage ∧
      (memoryCall "e" "a|g|b" "c").triple ≠ (memoryCall "f" "a" "b|g|c").triple ∧
      (memoryCall "f" "a" "b|g|c").Rejected .plain (.at 2) (oneMemory "a|g|b" "c") ∧
      ¬ (oneMemory "a|g|b" "c").HoldsActive (memoryCall "f" "a" "b|g|c").triple := by
  refine ⟨by decide, by decide, by decide, by decide, ⟨_, _, rfl⟩, fun h => ?_⟩
  exact absurd (oneMemory_holdsActive h) (by decide)

end JanusGraph
