import JanusGraph.Graph.Apply
import JanusGraph.Graph.Serve

/-!
# The phases of a merge

What the steps of each phase of `apply_plan` keep holds along the whole of it, whoever
answers its queries.
-/

namespace JanusGraph

variable {Score S : Type} {h : Handler Query (fun q => Except String q.Result) S}
  {I : S → Prop} {s : S} {redirect : Table String String}

/-! ## One turn -/

/-- The queries of a row of phase A. -/
def MentionRow.create (redirect : Table String String) (row : MentionRow) : Query :=
  .createMention (row.srcUuid.getD "") (rootIn redirect (row.dstUuid.getD "")) row.edgeUuid
    (orDefault row.groupId "graphiti_memory") (orNone row.createdAt)

def MentionRow.delete (row : MentionRow) : Query :=
  .deleteMention (row.srcUuid.getD "") (row.dstUuid.getD "") row.edgeUuid

/-- The rule of a turn of phase A: its `DELETE` comes after a `CREATE` that has made an
edge. -/
theorem along_moveMention {row : MentionRow} (hI : I s)
    (hmove : row.srcUuid.getD "" ≠ "" → row.dstUuid.getD "" ≠ "" →
      rootIn redirect (row.dstUuid.getD "") ≠ row.dstUuid.getD "" →
        I (h (row.create redirect) s).2 ∧ ∀ made : ℕ, (h (row.create redirect) s).1 = .ok made →
          made ≠ 0 → I (h row.delete (h (row.create redirect) s).2).2) :
    Prog.Along h I (moveMention redirect row) s := by
  unfold moveMention
  dsimp only
  split
  · exact hI
  · next hends =>
    obtain ⟨hsrc, hdst⟩ := not_or.mp hends
    split
    · exact hI
    · next hroot =>
      obtain ⟨hcreate, hdelete⟩ := hmove hsrc hdst hroot
      rw [query_attempt_bind, Prog.along_ask]
      refine ⟨hI, ?_⟩
      split
      · exact hcreate
      · next made hmade =>
        split
        · exact hcreate
        · next hne =>
          have hdeleted := hdelete made hmade hne
          rw [query_attempt_bind, Prog.along_ask]
          refine ⟨hcreate, ?_⟩
          split <;> exact hdeleted

variable {py : Builtins}

/-- The row keeps its ends. -/
def RelationRow.Settled (redirect : Table String String) (row : RelationRow) : Prop :=
  row.newSrc redirect = row.srcUuid.getD "None" ∧ row.newDst redirect = row.dstUuid.getD "None"

/-- The rule of a turn of phase B: its `DELETE` comes after a `CREATE` that has not raised. -/
theorem along_moveRelation {row : RelationRow} (hI : I s)
    (hloop : ¬ row.Settled redirect → row.newSrc redirect = row.newDst redirect →
      I (h row.delete s).2)
    (hmove : ¬ row.Settled redirect → row.newSrc redirect ≠ row.newDst redirect →
      I (h (row.recreate py redirect) s).2 ∧
        ((h (row.recreate py redirect) s).1 = .ok () →
          I (h row.delete (h (row.recreate py redirect) s).2).2)) :
    Prog.Along h I (moveRelation py redirect row) s := by
  unfold moveRelation
  split
  · exact hI
  · next hsettled =>
    split
    · next hsame =>
      rw [query_attempt_bind, Prog.along_ask]
      refine ⟨hI, ?_⟩
      split <;> exact hloop hsettled hsame
    · next hne =>
      obtain ⟨hcreate, hdelete⟩ := hmove hsettled hne
      rw [query_attempt_bind, Prog.along_ask]
      refine ⟨hI, ?_⟩
      split
      · exact hcreate
      · next hmade =>
        rw [query_attempt_bind, Prog.along_ask]
        refine ⟨hcreate, ?_⟩
        split <;> exact hdelete hmade

/-! ## The whole -/

/-- The queries of phases C and D. -/
def Query.OfCleanup : Query → Prop
  | .countDuplicates | .deleteDuplicates | .countDetached _ | .deleteDetached _ => True
  | _ => False

theorem only_dropDuplicates : Prog.Only Query.OfCleanup dropDuplicates := by
  refine Prog.Only.bind (only_query trivial).attempt fun dup => ?_
  split
  · exact Prog.only_ret _
  · split
    · exact Prog.only_ret _
    · refine Prog.Only.bind (only_query trivial).attempt fun answer => ?_
      cases answer <;> exact Prog.only_ret _

theorem only_deleteDetachedChunk (chunk : List String) :
    Prog.Only Query.OfCleanup (deleteDetachedChunk chunk) := by
  refine Prog.Only.bind (only_query trivial).attempt fun before => ?_
  split
  · exact Prog.only_ret _
  · refine Prog.Only.bind (only_query trivial).attempt fun answer => ?_
    cases answer <;> exact Prog.only_ret _

/-- What the steps keep: `IA` up to the end of phase A, `IB` along phase B, whose rows
satisfy `J`, and `IC` from there on. -/
structure ApplyKeeps (h : Handler Query (fun q => Except String q.Result) S) (py : Builtins)
    (plan : DedupPlan Score) (IA IB IC : S → Prop) (J : RelationRow → Prop) : Prop where
  readMentions : ∀ s, IA s → IA (h (.mentionsTo plan.victims) s).2
  mentionTurn : ∀ row s, IA s → Prog.Along h IA (moveMention plan.redirect row) s
  readRelations : ∀ s, IA s → IB (h (.relationsTouching plan.victims) s).2 ∧
    ∀ rows, (h (.relationsTouching plan.victims) s).1 = .ok rows → ∀ row ∈ rows, J row
  relationTurn : ∀ row s, J row → IB s → Prog.Along h IB (moveRelation py plan.redirect row) s
  cleanup : ∀ q s, q.OfCleanup → IC s → IC (h q s).2

variable {plan : DedupPlan Score} {IA IB IC : S → Prop} {J : RelationRow → Prop}

/-- One query is one request. -/
theorem run_query_eq (q : Query) (s : S) : Prog.run h (query q) s = h q s := by
  rw [query, Prog.run_ask]
  rcases hq : h q s with ⟨e | a, s'⟩ <;> rfl

theorem along_query {q : Query} (hI : I s) (hq : I (h q s).2) : Prog.Along h I (query q) s := by
  rw [query, Prog.along_ask]
  refine ⟨hI, ?_⟩
  cases (h q s).1 <;> exact hq

/-- The rule of a read under `try`. -/
theorem along_readRows {α β : Type} {what : String} {read : Cypher (List α)}
    {f : List α × List String → Cypher β} (hread : Prog.Along h I read s)
    (hf : ∀ rows errors, rows = [] ∨ (Prog.run h read s).1 = .ok rows →
      Prog.Along h I (f (rows, errors)) (Prog.run h read s).2) :
    Prog.Along h I (readRows what read >>= f) s := by
  unfold readRows
  rw [Prog.bind_assoc, Prog.along_bind_ok (Prog.run_attempt _ _), Prog.along_attempt]
  refine ⟨hread, ?_⟩
  rcases hrows : (Prog.run h read s).1 with e | rows
  · exact hf [] _ (.inl rfl)
  · exact hf rows _ (.inr hrows)

/-- Phases A to D. -/
theorem ApplyKeeps.along (hkeeps : ApplyKeeps h py plan IA IB IC J) (hA : ∀ s, IA s → I s)
    (hB : ∀ s, IB s → I s) (hBC : ∀ s, IB s → IC s) (hC : ∀ s, IC s → I s) (apply : Bool)
    (batch : ℕ) (hs : IA s) : Prog.Along h I (applyPlan py plan apply batch) s := by
  unfold applyPlan
  split
  · exact hA s hs
  · split
    · exact hA s hs
    · refine along_readRows (along_query (hA s hs) (hA _ (hkeeps.readMentions s hs)))
        fun mentRows mentErrors _ => ?_
      rw [run_query_eq]
      have hphaseA : Prog.Along h IA (Prog.forEach (moveMention plan.redirect) mentRows)
          (h (.mentionsTo plan.victims) s).2 :=
        Prog.Along.forEach_rest (J := fun _ => IA)
          (fun row _ s hs => hkeeps.mentionTurn row s hs) (fun _ _ => id)
          (hkeeps.readMentions s hs)
      refine Prog.Along.bind hphaseA hA fun mentions s hs => ?_
      obtain ⟨hread, hrows⟩ := hkeeps.readRelations s hs
      refine along_readRows (along_query (hA s hs) (hB _ hread)) fun relRows relErrors hrel => ?_
      rw [run_query_eq] at hrel ⊢
      have hrows' : ∀ row ∈ relRows, J row := by
        rcases hrel with rfl | hrel
        · simp
        · exact hrows relRows hrel
      have hphaseB : Prog.Along h IB (Prog.forEach (moveRelation py plan.redirect) relRows)
          (h (.relationsTouching plan.victims) s).2 := by
        refine Prog.Along.forEach_rest (J := fun rest s => (∀ row ∈ rest, J row) ∧ IB s)
          (fun row rest s hs => ?_) (fun _ _ hs => hs.2) ⟨hrows', hread⟩
        exact (hkeeps.relationTurn row s (hs.1 row List.mem_cons_self) hs.2).mono fun s hs' =>
          ⟨fun row' hrow' => hs.1 row' (List.mem_cons_of_mem row hrow'), hs'⟩
      refine Prog.Along.bind hphaseB hB fun relations s hs => ?_
      have hcleanup : ∀ {α : Type} {p : Cypher α} {s : S}, Prog.Only Query.OfCleanup p → IC s →
          Prog.Along h IC p s := fun hp hs => hp.along hkeeps.cleanup hs
      refine Prog.Along.bind (hcleanup only_dropDuplicates (hBC s hs)) hC
        fun duplicates s hs => ?_
      dsimp only
      split
      · exact hC s hs
      · refine (Prog.along_bind_ret _).mpr (Prog.Along.mono hC (hcleanup ?_ hs))
        exact Prog.Only.forEach only_deleteDetachedChunk _

end JanusGraph
