import JanusGraph.Graph.Apply
import JanusGraph.Graph.Fold

/-!
# The two passes return

`apply_plan` and `apply_episodic_plan` put every query under a `try`, and what it raises
among their errors. Whatever the server answers, they come to their end, except with a
batch size of 0.
-/

namespace JanusGraph

/-! ## Merging entities -/

theorem returns_readRows {α : Type} (what : String) (read : Cypher (List α)) :
    Prog.Returns (readRows what read) :=
  (Prog.returns_attempt _).bind fun rows => by cases rows <;> trivial

theorem returns_moveMention (redirect : Table String String) (row : MentionRow) :
    Prog.Returns (moveMention redirect row) := by
  unfold moveMention
  dsimp only
  split
  · trivial
  split
  · trivial
  refine (Prog.returns_attempt _).bind fun made => ?_
  rcases made with e | made
  · trivial
  dsimp only
  split
  · trivial
  exact (Prog.returns_attempt _).bind fun deleted => by cases deleted <;> trivial

theorem returns_moveRelation (py : Builtins) (redirect : Table String String)
    (row : RelationRow) : Prog.Returns (moveRelation py redirect row) := by
  unfold moveRelation
  dsimp only
  split
  · trivial
  split
  · exact (Prog.returns_attempt _).bind fun deleted => by cases deleted <;> trivial
  refine (Prog.returns_attempt _).bind fun made => ?_
  rcases made with e | made
  · trivial
  exact (Prog.returns_attempt _).bind fun deleted => by cases deleted <;> trivial

theorem returns_dropDuplicates : Prog.Returns dropDuplicates := by
  refine (Prog.returns_attempt _).bind fun dup => ?_
  rcases dup with e | dup
  · trivial
  dsimp only
  split
  · trivial
  exact (Prog.returns_attempt _).bind fun deleted => by cases deleted <;> trivial

theorem returns_deleteDetachedChunk (chunk : List String) :
    Prog.Returns (deleteDetachedChunk chunk) := by
  refine (Prog.returns_attempt _).bind fun before => ?_
  rcases before with e | before
  · trivial
  exact (Prog.returns_attempt _).bind fun deleted => by cases deleted <;> trivial

/-- `apply_plan` reports every exception of a query, and raises none. -/
theorem returns_applyPlan {Score : Type} (py : Builtins) (plan : DedupPlan Score) (apply : Bool)
    {batch : ℕ} (hbatch : batch ≠ 0) : Prog.Returns (applyPlan py plan apply batch) := by
  unfold applyPlan
  split
  · trivial
  split
  · trivial
  refine (returns_readRows ..).bind fun ment => ?_
  refine (Prog.Returns.forEach (returns_moveMention _) _).bind fun mentions => ?_
  refine (returns_readRows ..).bind fun rel => ?_
  refine (Prog.Returns.forEach (returns_moveRelation py _) _).bind fun relations => ?_
  refine returns_dropDuplicates.bind fun duplicates => ?_
  exact (Prog.Returns.forEach returns_deleteDetachedChunk _).bind fun deleted => Prog.returns_ret _

/-! ## Folding episodes -/

theorem returns_rewireRow (m : Rewiring) : Prog.Returns (rewireRow m) := by
  refine (Prog.returns_attempt _).bind fun made => ?_
  rcases made with e | made
  · trivial
  dsimp only
  split
  · trivial
  exact (Prog.returns_attempt _).bind fun deleted => by cases deleted <;> trivial

theorem returns_deleteChunk (chunk : List String) : Prog.Returns (deleteChunk chunk) :=
  (Prog.returns_attempt _).bind fun before => by cases before <;> trivial

theorem returns_deleteVictims (merges : List EpisodicMerge) {args : FoldArgs}
    (hbatch : args.batch ≠ 0) (edges : List VictimEdge) (counters : Counters) :
    Prog.Returns (deleteVictims merges args edges counters) := by
  refine (Prog.returns_attempt _).bind fun built => ?_
  dsimp only
  split
  · trivial
  split
  · trivial
  split
  · trivial
  exact (Prog.Returns.forEach returns_deleteChunk _).bind fun turns => Prog.returns_ret _

/-- Nor does `apply_episodic_plan`. -/
theorem returns_applyEpisodicPlan (merges : List EpisodicMerge) {args : FoldArgs}
    (hbatch : args.batch ≠ 0) : Prog.Returns (applyEpisodicPlan merges args) := by
  unfold applyEpisodicPlan
  dsimp only
  split
  · trivial
  refine (Prog.returns_attempt _).bind fun rows => ?_
  split
  · trivial
  split
  · trivial
  refine (Prog.returns_attempt _).bind fun survRows => ?_
  split
  · trivial
  exact (Prog.returns_attempt _).bind fun dropped =>
    (Prog.Returns.forEach returns_rewireRow _).bind fun turns =>
      returns_deleteVictims merges hbatch _ _

end JanusGraph
