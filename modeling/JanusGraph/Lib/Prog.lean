import Mathlib.Data.List.Basic

/-!
# Programs over requests

A program that talks to a store one request at a time: `Prog Q A ε α` is the
free monad over requests `q : Q` answered in `A q`, with exceptions in `ε`. What
a request does is not part of the program: a `Handler` interprets it over a
state. Three readings of one program are used:

* `Prog.run` — run it to its end;
* `Prog.crash` — stop it after `n` requests, as a process that dies does;
* `Prog.Along` — a predicate holds at every boundary between two requests,
  which is `crash` quantified over `n` (`Prog.along_iff`).
-/

/-- Programs over requests `Q` with answers `A`, exceptions `ε` and result `α`. -/
inductive Prog (Q : Type) (A : Q → Type) (ε α : Type) : Type where
  /-- return a result -/
  | ret : α → Prog Q A ε α
  /-- raise an exception -/
  | fail : ε → Prog Q A ε α
  /-- send a request and continue with its answer -/
  | ask : (q : Q) → (A q → Prog Q A ε α) → Prog Q A ε α

/-- A handler answers each request and moves the state. -/
abbrev Handler (Q : Type) (A : Q → Type) (S : Type) : Type := (q : Q) → S → A q × S

namespace Prog

variable {Q : Type} {A : Q → Type} {ε ε' α β S : Type}

/-- Sequencing: an exception skips the continuation. -/
protected def bind : Prog Q A ε α → (α → Prog Q A ε β) → Prog Q A ε β
  | ret a, f => f a
  | fail e, _ => fail e
  | ask q k, f => ask q fun a => (k a).bind f

instance : Monad (Prog Q A ε) where
  pure := ret
  bind := Prog.bind

/-- Send one request and return its answer. -/
def request (q : Q) : Prog Q A ε (A q) := ask q ret

/-- `try` without a handler: the exception becomes an ordinary result. -/
def attempt : Prog Q A ε α → Prog Q A ε' (Except ε α)
  | ret a => ret (.ok a)
  | fail e => ret (.error e)
  | ask q k => ask q fun a => (k a).attempt

/-- Send the requests as those of another kind. -/
def via {Q' : Type} {A' : Q' → Type} (f : Q → Q') (g : ∀ q, A' (f q) → A q) :
    Prog Q A ε α → Prog Q' A' ε α
  | ret a => ret a
  | fail e => fail e
  | ask q k => ask (f q) fun a => (k (g q a)).via f g

/-- Run the body for each element and collect what it returned. -/
def forEach {γ : Type} (body : γ → Prog Q A ε α) : List γ → Prog Q A ε (List α)
  | [] => ret []
  | c :: cs => do
    let a ← body c
    let as ← forEach body cs
    return a :: as

@[simp] theorem pure_eq (a : α) : (pure a : Prog Q A ε α) = ret a := rfl

@[simp] theorem ret_bind (a : α) (f : α → Prog Q A ε β) : ret a >>= f = f a := rfl

@[simp] theorem fail_bind (e : ε) (f : α → Prog Q A ε β) : fail e >>= f = fail e := rfl

@[simp] theorem ask_bind (q : Q) (k : A q → Prog Q A ε α) (f : α → Prog Q A ε β) :
    ask q k >>= f = ask q fun a => k a >>= f := rfl

@[simp] theorem request_bind (q : Q) (f : A q → Prog Q A ε β) :
    request q >>= f = ask q f := rfl

@[simp] theorem attempt_ret (a : α) :
    (ret a : Prog Q A ε α).attempt = (ret (.ok a) : Prog Q A ε' _) := rfl

@[simp] theorem attempt_fail (e : ε) :
    (fail e : Prog Q A ε α).attempt = (ret (.error e) : Prog Q A ε' _) := rfl

@[simp] theorem attempt_ask (q : Q) (k : A q → Prog Q A ε α) :
    (ask q k).attempt = (ask q fun a => (k a).attempt : Prog Q A ε' _) := rfl

/-- A request whose exception is raised, under `try`: what follows is given its answer. -/
theorem attempt_ask_bind {R : Type} {q : Q} {k : A q → Prog Q A ε R} (answered : A q → Except ε R)
    (hk : ∀ a, (k a).attempt = (ret (answered a) : Prog Q A ε' _))
    (f : Except ε R → Prog Q A ε' β) :
    (ask q k).attempt >>= f = ask q fun a => f (answered a) := by
  rw [attempt_ask, ask_bind]
  congr 1
  funext a
  rw [hk, ret_bind]

theorem bind_ret (p : Prog Q A ε α) : p >>= ret = p := by
  induction p with
  | ret a => rfl
  | fail e => rfl
  | ask q k ih => exact congrArg (ask q) (funext ih)

theorem bind_assoc {γ : Type} (p : Prog Q A ε α) (f : α → Prog Q A ε β)
    (g : β → Prog Q A ε γ) : (p >>= f) >>= g = p >>= fun a => f a >>= g := by
  induction p with
  | ret a => rfl
  | fail e => rfl
  | ask q k ih => exact congrArg (ask q) (funext ih)

instance : LawfulMonad (Prog Q A ε) :=
  LawfulMonad.mk' _ (fun p => bind_ret p) (fun _ _ => rfl) bind_assoc

/-! ## Running -/

/-- Run a program to its end. -/
def run (h : Handler Q A S) : Prog Q A ε α → S → Except ε α × S
  | ret a, s => (.ok a, s)
  | fail e, s => (.error e, s)
  | ask q k, s => run h (k (h q s).1) (h q s).2

variable {h : Handler Q A S}

@[simp] theorem run_ret (a : α) (s : S) :
    run h (ret a : Prog Q A ε α) s = (.ok a, s) := rfl

@[simp] theorem run_fail (e : ε) (s : S) :
    run h (fail e : Prog Q A ε α) s = (.error e, s) := rfl

@[simp] theorem run_ask (q : Q) (k : A q → Prog Q A ε α) (s : S) :
    run h (ask q k) s = run h (k (h q s).1) (h q s).2 := rfl

/-- A sequence runs its first part and hands over, unless that part raised. -/
theorem run_bind (p : Prog Q A ε α) (f : α → Prog Q A ε β) (s : S) :
    run h (p >>= f) s =
      match run h p s with
      | (.ok a, s') => run h (f a) s'
      | (.error e, s') => (.error e, s') := by
  induction p generalizing s with
  | ret a => rfl
  | fail e => rfl
  | ask q k ih => exact ih _ _

theorem run_bind_ok {p : Prog Q A ε α} {f : α → Prog Q A ε β} {s s' : S} {a : α}
    (hp : run h p s = (.ok a, s')) : run h (p >>= f) s = run h (f a) s' := by
  rw [run_bind, hp]

theorem run_map (f : α → β) (p : Prog Q A ε α) (s : S) :
    run h (f <$> p) s = ((run h p s).1.map f, (run h p s).2) := by
  rw [map_eq_pure_bind, run_bind]
  rcases hp : run h p s with ⟨e | a, s'⟩ <;> rfl

/-- `attempt` runs the same requests and never raises. -/
theorem run_attempt (p : Prog Q A ε α) (s : S) :
    run h (p.attempt : Prog Q A ε' (Except ε α)) s = (.ok (run h p s).1, (run h p s).2) := by
  induction p generalizing s with
  | ret a => rfl
  | fail e => rfl
  | ask q k ih => exact ih _ _

/-- A program that sends its requests as others runs as it does where those are answered. -/
theorem run_via {Q' : Type} {A' : Q' → Type} {h : Handler Q' A' S} (f : Q → Q')
    (g : ∀ q, A' (f q) → A q) (p : Prog Q A ε α) (s : S) :
    run h (p.via f g) s = run (fun q s => (g q (h (f q) s).1, (h (f q) s).2)) p s := by
  induction p generalizing s with
  | ret a => rfl
  | fail e => rfl
  | ask q k ih => exact ih _ _

/-- Loop rule for turns that all return: `I` holds of the turns that are done, of what they
have returned, and of the state. -/
theorem run_forEach_done {γ : Type} {body : γ → Prog Q A ε α} {cs : List γ}
    {I : List γ → List α → S → Prop}
    (hbody : ∀ done c rest as s, cs = done ++ c :: rest → I done as s →
      ∃ a s', run h (body c) s = (.ok a, s') ∧ I (done ++ [c]) (as ++ [a]) s')
    {s : S} (hs : I [] [] s) :
    ∃ as s', run h (forEach body cs) s = (.ok as, s') ∧ I cs as s' := by
  have hrest : ∀ rest done as s, cs = done ++ rest → I done as s →
      ∃ as' s', run h (forEach body rest) s = (.ok as', s') ∧ I cs (as ++ as') s' := by
    intro rest
    induction rest with
    | nil =>
      intro done as s hcs hI
      rw [List.append_nil] at hcs
      exact ⟨[], s, rfl, by rwa [hcs, List.append_nil]⟩
    | cons c rest ih =>
      intro done as s hcs hI
      obtain ⟨a, s₁, hrun₁, hI₁⟩ := hbody done c rest as s hcs hI
      obtain ⟨as', s₂, hrun₂, hI₂⟩ := ih (done ++ [c]) (as ++ [a]) s₁ (by simp [hcs]) hI₁
      refine ⟨a :: as', s₂, ?_, by rwa [List.append_assoc] at hI₂⟩
      rw [forEach, run_bind_ok hrun₁, run_bind_ok hrun₂]
      rfl
  exact hrest cs [] [] s rfl hs

/-- The rule where it is known what each turn returns. -/
theorem run_forEach_map {γ : Type} {body : γ → Prog Q A ε α} {out : γ → α} {cs : List γ}
    {I : List γ → S → Prop}
    (hbody : ∀ done c rest s, cs = done ++ c :: rest → I done s →
      ∃ s', run h (body c) s = (.ok (out c), s') ∧ I (done ++ [c]) s')
    {s : S} (hs : I [] s) :
    ∃ s', run h (forEach body cs) s = (.ok (cs.map out), s') ∧ I cs s' := by
  have hall : ∃ as s', run h (forEach body cs) s = (.ok as, s') ∧ as = cs.map out ∧ I cs s' := by
    refine run_forEach_done (I := fun done as s => as = done.map out ∧ I done s)
      (fun done c rest as s hcs hI => ?_) ⟨rfl, hs⟩
    obtain ⟨s', hrun, hI'⟩ := hbody done c rest s hcs hI.2
    exact ⟨out c, s', hrun, by simp [hI.1], hI'⟩
  obtain ⟨as, s', hrun, rfl, hs'⟩ := hall
  exact ⟨s', hrun, hs'⟩

/-- The rule where each turn keeps `I` and moves the `view` of the state by `f`: the loop does so
by folding `f`. -/
theorem run_forEach {γ σ : Type} {body : γ → Prog Q A ε α} {I : S → Prop} {view : S → σ}
    {f : σ → γ → σ}
    (hbody : ∀ c s, I s → ∃ a s', run h (body c) s = (.ok a, s') ∧ I s' ∧
      view s' = f (view s) c)
    (cs : List γ) {s : S} (hs : I s) :
    ∃ as s', run h (forEach body cs) s = (.ok as, s') ∧ I s' ∧
      view s' = cs.foldl f (view s) := by
  refine run_forEach_done (I := fun done _ s' => I s' ∧ view s' = done.foldl f (view s))
    (fun done c rest _ s' _ hs' => ?_) ⟨hs, rfl⟩
  obtain ⟨a, s₁, hrun, hs₁, hview⟩ := hbody c s' hs'.1
  exact ⟨a, s₁, hrun, hs₁, by rw [hview, hs'.2, List.foldl_append, List.foldl_cons, List.foldl_nil]⟩

/-- What every request keeps, the run keeps. -/
theorem run_invariant {I : S → Prop} (hstep : ∀ q s, I s → I (h q s).2) (p : Prog Q A ε α)
    {s : S} (hs : I s) : I (run h p s).2 := by
  induction p generalizing s with
  | ret a => exact hs
  | fail e => exact hs
  | ask q k ih => exact ih _ (hstep q s hs)

/-! ## Crashing -/

/-- The state a process leaves behind when it dies after `n` requests. -/
def crash (h : Handler Q A S) : ℕ → Prog Q A ε α → S → S
  | 0, _, s => s
  | n + 1, ask q k, s => crash h n (k (h q s).1) (h q s).2
  | _ + 1, ret _, s => s
  | _ + 1, fail _, s => s

@[simp] theorem crash_zero (p : Prog Q A ε α) (s : S) : crash h 0 p s = s := by
  cases p <;> rfl

@[simp] theorem crash_succ_ask (n : ℕ) (q : Q) (k : A q → Prog Q A ε α) (s : S) :
    crash h (n + 1) (ask q k) s = crash h n (k (h q s).1) (h q s).2 := rfl

@[simp] theorem crash_ret (n : ℕ) (a : α) (s : S) :
    crash h n (ret a : Prog Q A ε α) s = s := by
  cases n <;> rfl

@[simp] theorem crash_fail (n : ℕ) (e : ε) (s : S) :
    crash h n (fail e : Prog Q A ε α) s = s := by
  cases n <;> rfl

/-- `I` holds at every boundary between two requests of the run, both ends
included. -/
def Along (h : Handler Q A S) (I : S → Prop) : Prog Q A ε α → S → Prop
  | ret _, s => I s
  | fail _, s => I s
  | ask q k, s => I s ∧ Along h I (k (h q s).1) (h q s).2

variable {I J : S → Prop}

@[simp] theorem along_ret (a : α) (s : S) :
    Along h I (ret a : Prog Q A ε α) s ↔ I s := Iff.rfl

@[simp] theorem along_fail (e : ε) (s : S) :
    Along h I (fail e : Prog Q A ε α) s ↔ I s := Iff.rfl

@[simp] theorem along_ask (q : Q) (k : A q → Prog Q A ε α) (s : S) :
    Along h I (ask q k) s ↔ I s ∧ Along h I (k (h q s).1) (h q s).2 := Iff.rfl

theorem Along.here {p : Prog Q A ε α} {s : S} (ha : Along h I p s) : I s := by
  cases p with
  | ret a => exact ha
  | fail e => exact ha
  | ask q k => exact ha.1

/-- A predicate holds along a run exactly when no crash point escapes it. -/
theorem along_iff {p : Prog Q A ε α} {s : S} :
    Along h I p s ↔ ∀ n, I (crash h n p s) := by
  induction p generalizing s with
  | ret a => simp
  | fail e => simp
  | ask q k ih =>
    rw [along_ask, ih]
    constructor
    · rintro ⟨h0, hs⟩ (_ | n)
      · exact h0
      · exact hs n
    · intro hn
      exact ⟨hn 0, fun n => hn (n + 1)⟩

theorem Along.mono {p : Prog Q A ε α} {s : S} (hIJ : ∀ s, I s → J s)
    (ha : Along h I p s) : Along h J p s :=
  along_iff.mpr fun n => hIJ _ (along_iff.mp ha n)

/-- The end of the run is one of its boundaries. -/
theorem Along.run {p : Prog Q A ε α} {s : S} (ha : Along h I p s) :
    I (run h p s).2 := by
  induction p generalizing s with
  | ret a => exact ha
  | fail e => exact ha
  | ask q k ih => exact ih _ ha.2

/-- Sequencing rule: `I` holds along `p >>= f` exactly when it holds along `p` and
along the continuation `p` hands over to. -/
theorem along_bind {p : Prog Q A ε α} {f : α → Prog Q A ε β} {s : S} :
    Along h I (p >>= f) s ↔
      Along h I p s ∧ ∀ a s', run h p s = (.ok a, s') → Along h I (f a) s' := by
  induction p generalizing s with
  | ret a =>
    refine ⟨fun ha => ⟨ha.here, ?_⟩, fun ha => ha.2 a s rfl⟩
    rintro a' s' ⟨⟩
    exact ha
  | fail e =>
    refine ⟨fun ha => ⟨ha, ?_⟩, fun ha => ha.1⟩
    rintro a s' ⟨⟩
  | ask q k ih => rw [ask_bind, along_ask, along_ask, ih, run_ask, and_assoc]

/-- The sequencing rule when the first part is known to return. -/
theorem along_bind_ok {p : Prog Q A ε α} {f : α → Prog Q A ε β} {s s' : S} {a : α}
    (hp : run h p s = (.ok a, s')) :
    Along h I (p >>= f) s ↔ Along h I p s ∧ Along h I (f a) s' := by
  rw [along_bind, hp]
  refine and_congr_right fun _ => ⟨fun hf => hf a s' rfl, ?_⟩
  rintro hf a' s'' ⟨⟩
  exact hf

/-- What is only computed with the result adds no boundary. -/
theorem along_bind_ret (f : α → β) {p : Prog Q A ε α} {s : S} :
    Along h I (p >>= fun a => (ret (f a) : Prog Q A ε β)) s ↔ Along h I p s := by
  rw [along_bind, and_iff_left_iff_imp]
  intro ha a s' hrun
  have hend := ha.run
  rw [hrun] at hend
  exact hend

@[simp] theorem along_attempt {p : Prog Q A ε α} {s : S} :
    Along h I (p.attempt : Prog Q A ε' (Except ε α)) s ↔ Along h I p s := by
  induction p generalizing s with
  | ret a => exact Iff.rfl
  | fail e => exact Iff.rfl
  | ask q k ih => exact and_congr_right fun _ => ih _

/-- Loop rule: what holds along each turn from a state in `J`, when every turn comes
back to `J`, holds along the loop. -/
theorem Along.forEach {γ : Type} {body : γ → Prog Q A ε α}
    (hbody : ∀ c s, J s → Along h I (body c) s ∧ ∀ a s', Prog.run h (body c) s = (.ok a, s') → J s')
    (hJI : ∀ s, J s → I s) (cs : List γ) {s : S} (hs : J s) :
    Along h I (Prog.forEach body cs) s := by
  induction cs generalizing s with
  | nil => exact hJI s hs
  | cons c cs ih =>
    obtain ⟨hturn, hback⟩ := hbody c s hs
    refine along_bind.mpr ⟨hturn, fun a s' hrun => ?_⟩
    have hrest := ih (hback a s' hrun)
    exact (along_bind_ret fun as => a :: as).mpr hrest

/-- Sequencing rule: what holds along the first part says enough of where it ends for the
rest. -/
theorem Along.bind {p : Prog Q A ε α} {f : α → Prog Q A ε β} {s : S} (hp : Along h J p s)
    (hJI : ∀ s, J s → I s) (hf : ∀ a s', J s' → Along h I (f a) s') : Along h I (p >>= f) s := by
  refine along_bind.mpr ⟨hp.mono hJI, fun a s' hrun => hf a s' ?_⟩
  have hend := hp.run
  rwa [hrun] at hend

/-- Loop rule: what holds along each turn, of the turns that are then left and of the
state, holds along the loop. -/
theorem Along.forEach_rest {γ : Type} {body : γ → Prog Q A ε α} {J : List γ → S → Prop}
    (hbody : ∀ c cs s, J (c :: cs) s → Along h (J cs) (body c) s)
    (hJI : ∀ cs s, J cs s → I s) {cs : List γ} {s : S} (hs : J cs s) :
    Along h I (Prog.forEach body cs) s := by
  induction cs generalizing s with
  | nil => exact hJI [] s hs
  | cons c cs ih =>
    refine Along.bind (hbody c cs s hs) (hJI cs) fun a s' hs' => ?_
    exact (along_bind_ret fun as => a :: as).mpr (ih hs')

/-! ## What a program sends -/

/-- The program sends no other requests than those in `P`. -/
def Only (P : Q → Prop) : Prog Q A ε α → Prop
  | ret _ => True
  | fail _ => True
  | ask q k => P q ∧ ∀ a, Only P (k a)

variable {P : Q → Prop}

/-- The rules of `Only`. -/
theorem only_ret (a : α) : Only P (ret a : Prog Q A ε α) := trivial

theorem only_fail (e : ε) : Only P (fail e : Prog Q A ε α) := trivial

theorem Only.bind {p : Prog Q A ε α} {f : α → Prog Q A ε β} (hp : Only P p)
    (hf : ∀ a, Only P (f a)) : Only P (p >>= f) := by
  induction p with
  | ret a => exact hf a
  | fail e => trivial
  | ask q k ih => exact ⟨hp.1, fun a => ih a (hp.2 a)⟩

theorem only_of_forall (hP : ∀ q, P q) (p : Prog Q A ε α) : Only P p := by
  induction p with
  | ret a => trivial
  | fail e => trivial
  | ask q k ih => exact ⟨hP q, ih⟩

theorem Only.mono {P' : Q → Prop} {p : Prog Q A ε α} (hp : Only P p) (h : ∀ q, P q → P' q) :
    Only P' p := by
  induction p with
  | ret a => trivial
  | fail e => trivial
  | ask q k ih => exact ⟨h q hp.1, fun a => ih a (hp.2 a)⟩

theorem Only.attempt {p : Prog Q A ε α} (hp : Only P p) :
    Only P (p.attempt : Prog Q A ε' (Except ε α)) := by
  induction p with
  | ret a => trivial
  | fail e => trivial
  | ask q k ih => exact ⟨hp.1, fun a => ih a (hp.2 a)⟩

theorem Only.forEach {γ : Type} {body : γ → Prog Q A ε α} (hbody : ∀ c, Only P (body c))
    (cs : List γ) : Only P (Prog.forEach body cs) := by
  induction cs with
  | nil => trivial
  | cons c cs ih => exact (hbody c).bind fun a => ih.bind fun as => only_ret _

theorem Only.via {Q' : Type} {A' : Q' → Type} {P' : Q' → Prop} {f : Q → Q'}
    {g : ∀ q, A' (f q) → A q} {p : Prog Q A ε α} (hp : Only P p) (hf : ∀ q, P q → P' (f q)) :
    Only P' (p.via f g) := by
  induction p with
  | ret a => trivial
  | fail e => trivial
  | ask q k ih => exact ⟨hf q hp.1, fun a => ih _ (hp.2 _)⟩

/-- What every request the program sends keeps, holds along it. -/
theorem Only.along {p : Prog Q A ε α} (hp : Only P p)
    (hstep : ∀ q s, P q → I s → I (h q s).2) {s : S} (hs : I s) : Along h I p s := by
  induction p generalizing s with
  | ret a => exact hs
  | fail e => exact hs
  | ask q k ih => exact ⟨hs, ih _ (hp.2 _) (hstep q s hp.1 hs)⟩

/-! ## Programs that do not raise -/

/-- Whatever the answers are, the program returns. -/
def Returns : Prog Q A ε α → Prop
  | ret _ => True
  | fail _ => False
  | ask _ k => ∀ a, Returns (k a)

theorem returns_ret (a : α) : Returns (ret a : Prog Q A ε α) := trivial

theorem returns_attempt (p : Prog Q A ε α) :
    Returns (p.attempt : Prog Q A ε' (Except ε α)) := by
  induction p with
  | ret a => trivial
  | fail e => trivial
  | ask q k ih => exact ih

theorem Returns.bind {p : Prog Q A ε α} {f : α → Prog Q A ε β} (hp : Returns p)
    (hf : ∀ a, Returns (f a)) : Returns (p >>= f) := by
  induction p with
  | ret a => exact hf a
  | fail e => exact hp.elim
  | ask q k ih => exact fun a => ih a (hp a)

theorem Returns.forEach {γ : Type} {body : γ → Prog Q A ε α} (hbody : ∀ c, Returns (body c))
    (cs : List γ) : Returns (Prog.forEach body cs) := by
  induction cs with
  | nil => trivial
  | cons c cs ih => exact (hbody c).bind fun a => ih.bind fun as => returns_ret _

theorem Returns.via {Q' : Type} {A' : Q' → Type} {f : Q → Q'} {g : ∀ q, A' (f q) → A q}
    {p : Prog Q A ε α} (hp : Returns p) : Returns (p.via f g) := by
  induction p with
  | ret a => trivial
  | fail e => exact hp.elim
  | ask q k ih => exact fun a => ih _ (hp _)

/-- Whatever the answers are, what the program returns satisfies `R`. -/
def Gives (R : α → Prop) : Prog Q A ε α → Prop
  | ret a => R a
  | fail _ => True
  | ask _ k => ∀ a, Gives R (k a)

variable {R : α → Prop} {R' : β → Prop}

theorem gives_ret {a : α} (ha : R a) : Gives R (ret a : Prog Q A ε α) := ha

theorem Gives.bind {p : Prog Q A ε α} {f : α → Prog Q A ε β} (hp : Gives R p)
    (hf : ∀ a, R a → Gives R' (f a)) : Gives R' (p >>= f) := by
  induction p with
  | ret a => exact hf a hp
  | fail e => trivial
  | ask q k ih => exact fun a => ih a (hp a)

/-- A program that returns does so under `try`. -/
theorem Gives.attempt {p : Prog Q A ε α} (hp : Gives R p) (hreturns : Returns p) :
    Gives (fun r => ∃ a, r = .ok a ∧ R a) (p.attempt : Prog Q A ε' (Except ε α)) := by
  induction p with
  | ret a => exact ⟨a, rfl, hp⟩
  | fail e => exact hreturns.elim
  | ask q k ih => exact fun a => ih a (hp a) (hreturns a)

theorem gives_true (p : Prog Q A ε α) : Gives (fun _ => True) p := by
  induction p with
  | ret a => trivial
  | fail e => trivial
  | ask q k ih => exact ih

theorem Gives.run {p : Prog Q A ε α} (hp : Gives R p) {a : α} {s s' : S}
    (hrun : Prog.run h p s = (.ok a, s')) : R a := by
  induction p generalizing s with
  | ret b =>
    rw [run_ret] at hrun
    cases hrun
    exact hp
  | fail e => cases hrun
  | ask q k ih => exact ih _ (hp _) hrun

theorem Returns.run {p : Prog Q A ε α} (hp : Returns p) (h : Handler Q A S) (s : S) :
    ∃ a s', Prog.run h p s = (.ok a, s') := by
  induction p generalizing s with
  | ret a => exact ⟨a, s, rfl⟩
  | fail e => exact hp.elim
  | ask q k ih => exact ih _ (hp _) _

/-! ## Requests that raise -/

section

variable {R : Q → Type} {h : Handler Q (fun q => Except ε (R q)) S}

/-- Sent one after the other, one of the requests is answered with an exception. -/
def Raises (h : Handler Q (fun q => Except ε (R q)) S) : List Q → S → Prop
  | [], _ => False
  | q :: qs, s => (∃ e, (h q s).1 = .error e) ∨ Raises h qs (h q s).2

@[simp] theorem raises_nil (s : S) : ¬ Raises h [] s := id

@[simp] theorem raises_cons (q : Q) (qs : List Q) (s : S) :
    Raises h (q :: qs) s ↔ (∃ e, (h q s).1 = .error e) ∨ Raises h qs (h q s).2 := Iff.rfl

/-- Requests that are sent as those of another kind. -/
theorem raises_map {Q' : Type} {R' : Q' → Type} {h : Handler Q' (fun q => Except ε (R' q)) S}
    (f : Q → Q') (qs : List Q) (s : S) :
    Raises h (qs.map f) s ↔
      Raises (R := fun q => R' (f q)) (fun q s => h (f q) s) qs s := by
  induction qs generalizing s with
  | nil => exact Iff.rfl
  | cons q qs ih => exact or_congr_right (ih _)

end

end Prog
