import JanusGraph.Graph.Schema

/-!
# Programs on a server

What one query does: on a server that never raises, and under `try` on any server.
-/

namespace JanusGraph

/-- Every query succeeds. -/
def Server.Quiet (server : Server) : Prop := ∀ n, server.raises n = none

/-- A server that answers in the order of the graph. -/
def inOrder : Server where
  scan _ := ⟨fun l => l, fun l => .refl l⟩
  raises _ := none

/-- The database after a query. -/
def FalkorDb.after (server : Server) (q : Query) (db : FalkorDb) : FalkorDb :=
  let r := q.exec (server.scan db.tick) db.graph
  ⟨r.2, db.tick + 1, db.log ++ [⟨q, r.1⟩]⟩

/-- A query under `try` hands over its rows or its error. -/
theorem query_attempt_bind {α : Type} (q : Query) (f : Except String q.Result → Cypher α) :
    ((query q).attempt : Cypher (Except String q.Result)) >>= f = .ask q f := by
  rw [query, Prog.attempt_ask, Prog.ask_bind]
  congr 1
  funext answer
  cases answer <;> rfl

theorem only_query {P : Query → Prop} {q : Query} (hq : P q) : Prog.Only P (query q) :=
  ⟨hq, fun answer => by cases answer <;> trivial⟩

section

variable {server : Server}

/-- A query raises, and has not been executed, or it is executed. -/
theorem handle_cases (server : Server) (q : Query) (db : FalkorDb) :
    (∃ error, server.handle q db = (.error error, { db with tick := db.tick + 1 })) ∨
      server.handle q db =
        (.ok (q.exec (server.scan db.tick) db.graph).1, db.after server q) := by
  unfold Server.handle
  split
  · next error _ => exact .inl ⟨error, rfl⟩
  · exact .inr rfl

/-- The rule of a query under `try`. -/
theorem along_query_attempt {α : Type} {I : FalkorDb → Prop} {q : Query}
    {f : Except String q.Result → Cypher α} {db : FalkorDb} (hI : I db)
    (hraised : ∀ error,
      Prog.Along server.handle I (f (.error error)) { db with tick := db.tick + 1 })
    (hok : Prog.Along server.handle I (f (.ok (q.exec (server.scan db.tick) db.graph).1))
      (db.after server q)) :
    Prog.Along server.handle I ((query q).attempt >>= f) db := by
  rw [query_attempt_bind, Prog.along_ask]
  refine ⟨hI, ?_⟩
  rcases handle_cases server q db with ⟨error, h⟩ | h
  · rw [h]
    exact hraised error
  · rw [h]
    exact hok

end

section

variable {server : Server} (hquiet : server.Quiet)

include hquiet

theorem run_query (q : Query) (db : FalkorDb) :
    Prog.run server.handle (query q) db =
      (.ok (q.exec (server.scan db.tick) db.graph).1, db.after server q) := by
  simp only [query, Prog.run_ask, Server.handle, hquiet db.tick]
  rfl

/-- A query under `try`. -/
theorem run_query_attempt (q : Query) (db : FalkorDb) :
    Prog.run server.handle ((query q).attempt : Cypher (Except String q.Result)) db =
      (.ok (.ok (q.exec (server.scan db.tick) db.graph).1), db.after server q) := by
  rw [Prog.run_attempt, run_query hquiet]

end

end JanusGraph
