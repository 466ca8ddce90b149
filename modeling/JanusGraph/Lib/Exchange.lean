import JanusGraph.Lib.Prog

/-!
# Exchanges

An exchange of a program is one way that its requests can be answered, from its first request to
its end: the requests with their answers, and the result. What holds of every exchange holds
whatever handles the requests.
-/

namespace Prog

variable {Q : Type} {A : Q → Type} {ε ε' α β : Type}

/-- The program can have its requests answered as in the list, and then ends with the result. -/
inductive Exchange : Prog Q A ε α → List (Sigma A) → Except ε α → Prop where
  | ret {a : α} : Exchange (ret a) [] (.ok a)
  | fail {e : ε} : Exchange (fail e) [] (.error e)
  | ask {q : Q} {k : A q → Prog Q A ε α} {a : A q} {l : List (Sigma A)} {r : Except ε α} :
      Exchange (k a) l r → Exchange (ask q k) (⟨q, a⟩ :: l) r

theorem exchange_ret {a : α} {l : List (Sigma A)} {r : Except ε α} :
    Exchange (ret a : Prog Q A ε α) l r ↔ l = [] ∧ r = .ok a := by
  constructor
  · rintro ⟨⟩
    exact ⟨rfl, rfl⟩
  · rintro ⟨rfl, rfl⟩
    exact .ret

theorem exchange_fail {e : ε} {l : List (Sigma A)} {r : Except ε α} :
    Exchange (fail e : Prog Q A ε α) l r ↔ l = [] ∧ r = .error e := by
  constructor
  · rintro ⟨⟩
    exact ⟨rfl, rfl⟩
  · rintro ⟨rfl, rfl⟩
    exact .fail

theorem exchange_ask {q : Q} {k : A q → Prog Q A ε α} {l : List (Sigma A)} {r : Except ε α} :
    Exchange (ask q k) l r ↔ ∃ a l', l = ⟨q, a⟩ :: l' ∧ Exchange (k a) l' r := by
  constructor
  · rintro ⟨⟩
    exact ⟨_, _, rfl, ‹_›⟩
  · rintro ⟨a, l', rfl, h⟩
    exact .ask h

/-- An exchange of a sequence is one of its first part and, unless that raised, one of the rest. -/
theorem exchange_bind {p : Prog Q A ε α} {f : α → Prog Q A ε β} {l : List (Sigma A)}
    {r : Except ε β} : Exchange (p >>= f) l r ↔
      (∃ e, r = .error e ∧ Exchange p l (.error e)) ∨
        ∃ a l₁ l₂, l = l₁ ++ l₂ ∧ Exchange p l₁ (.ok a) ∧ Exchange (f a) l₂ r := by
  induction p generalizing l with
  | ret a =>
    rw [ret_bind]
    constructor
    · exact fun h => .inr ⟨a, [], l, rfl, .ret, h⟩
    · rintro (⟨e, -, h⟩ | ⟨a', l₁, l₂, rfl, h, h'⟩)
      · cases h
      · cases h
        exact h'
  | fail e =>
    rw [fail_bind, exchange_fail]
    constructor
    · rintro ⟨rfl, rfl⟩
      exact .inl ⟨e, rfl, .fail⟩
    · rintro (⟨e', rfl, h⟩ | ⟨a', l₁, l₂, rfl, h, h'⟩)
      · cases h
        exact ⟨rfl, rfl⟩
      · cases h
  | ask q k ih =>
    rw [ask_bind, exchange_ask]
    constructor
    · rintro ⟨a, l', rfl, h⟩
      rcases (ih a).mp h with ⟨e, rfl, hp⟩ | ⟨b, l₁, l₂, rfl, hp, hf⟩
      · exact .inl ⟨e, rfl, .ask hp⟩
      · exact .inr ⟨b, _, l₂, rfl, .ask hp, hf⟩
    · rintro (⟨e, rfl, h⟩ | ⟨b, l₁, l₂, rfl, h, h'⟩)
      · cases h with
        | ask h => exact ⟨_, _, rfl, (ih _).mpr (.inl ⟨e, rfl, h⟩)⟩
      · cases h with
        | ask h => exact ⟨_, _, rfl, (ih _).mpr (.inr ⟨b, _, l₂, rfl, h, h'⟩)⟩

/-- Under `try` the exchanges are the same. -/
theorem exchange_attempt {p : Prog Q A ε α} {l : List (Sigma A)} {r : Except ε' (Except ε α)} :
    Exchange (p.attempt : Prog Q A ε' _) l r ↔ ∃ r', r = .ok r' ∧ Exchange p l r' := by
  induction p generalizing l with
  | ret a =>
    rw [attempt_ret, exchange_ret]
    constructor
    · rintro ⟨rfl, rfl⟩
      exact ⟨_, rfl, .ret⟩
    · rintro ⟨r', rfl, h⟩
      cases h
      exact ⟨rfl, rfl⟩
  | fail e =>
    rw [attempt_fail, exchange_ret]
    constructor
    · rintro ⟨rfl, rfl⟩
      exact ⟨_, rfl, .fail⟩
    · rintro ⟨r', rfl, h⟩
      cases h
      exact ⟨rfl, rfl⟩
  | ask q k ih =>
    rw [attempt_ask, exchange_ask]
    constructor
    · rintro ⟨a, l', rfl, h⟩
      obtain ⟨r', rfl, hp⟩ := (ih a).mp h
      exact ⟨r', rfl, .ask hp⟩
    · rintro ⟨r', rfl, h⟩
      cases h with
      | ask h => exact ⟨_, _, rfl, (ih _).mpr ⟨r', rfl, h⟩⟩

/-- The exchange that a handler makes of a program. -/
def conversation {S : Type} (h : Handler Q A S) :
    Prog Q A ε α → S → List (Sigma A) × Except ε α
  | ret a, _ => ([], .ok a)
  | fail e, _ => ([], .error e)
  | ask q k, s =>
    let rest := conversation h (k (h q s).1) (h q s).2
    (⟨q, (h q s).1⟩ :: rest.1, rest.2)

theorem exchange_conversation {S : Type} (h : Handler Q A S) (p : Prog Q A ε α) (s : S) :
    Exchange p (conversation h p s).1 (conversation h p s).2 := by
  induction p generalizing s with
  | ret a => exact .ret
  | fail e => exact .fail
  | ask q k ih => exact .ask (ih _ _)

/-- Its result is that of the run. -/
theorem conversation_run {S : Type} (h : Handler Q A S) (p : Prog Q A ε α) (s : S) :
    (conversation h p s).2 = (run h p s).1 := by
  induction p generalizing s with
  | ret a => rfl
  | fail e => rfl
  | ask q k ih => exact ih _ _

end Prog
