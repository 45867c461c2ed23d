import Mathlib.Data.Nat.Notation
import Mathlib.Tactic.Common

/-!
# Programs that call out

A program that makes calls to something outside it and goes on with the answers is a tree
(`Prog`): it is done with a result, or makes a call and has a continuation for each answer. `Runs`
says which traces of calls and answers lead to which result, and `exec` is the run on given
answers.

Programs with a state and failures are actions (`Act`), a monad over `Prog`. An action that fails
keeps the state it has reached, as a function that returns early does. The rules of this module
take a run of an action apart: an action in sequence, a call, a return, an access to the state and
a failure.
-/

namespace IUserApps.Interact

variable {C A R S σ ε α β : Type}

/-- A program with calls `C`, answers `A` and result `R`. -/
inductive Prog (C A R : Type) : Type
  | done (r : R)
  | call (c : C) (next : A → Prog C A R)

namespace Prog

/-- A program and then another with its result. -/
def bind : Prog C A R → (R → Prog C A S) → Prog C A S
  | done r, f => f r
  | call c next, f => call c fun a => (next a).bind f

/-- The program makes these calls with these answers and is done with the result. -/
inductive Runs : Prog C A R → List (C × A) → R → Prop
  | done (r : R) : Runs (done r) [] r
  | call (c : C) {next : A → Prog C A R} (a : A) {trace : List (C × A)} {r : R} :
    Runs (next a) trace r → Runs (call c next) ((c, a) :: trace) r

/-- A program that is done makes no call. -/
@[simp] theorem runs_done {r r' : R} {trace : List (C × A)} :
    Runs (done r) trace r' ↔ trace = [] ∧ r' = r := by
  constructor
  · intro h
    cases h
    exact ⟨rfl, rfl⟩
  · rintro ⟨rfl, rfl⟩
    exact .done _

/-- A program that calls goes on with the call's answer. -/
@[simp] theorem runs_call {c : C} {next : A → Prog C A R} {trace : List (C × A)} {r : R} :
    Runs (call c next) trace r ↔ ∃ a rest, trace = (c, a) :: rest ∧ Runs (next a) rest r := by
  constructor
  · intro h
    cases h with
    | call _ a h => exact ⟨a, _, rfl, h⟩
  · rintro ⟨a, rest, rfl, h⟩
    exact .call c a h

/-- A run in sequence is a run of the first program and then one of the second. -/
theorem runs_bind {p : Prog C A R} {f : R → Prog C A S} {trace : List (C × A)} {r : S} :
    Runs (p.bind f) trace r ↔
      ∃ first last r', trace = first ++ last ∧ Runs p first r' ∧ Runs (f r') last r := by
  induction p generalizing trace with
  | done r' =>
    constructor
    · intro h
      exact ⟨[], trace, r', rfl, .done r', h⟩
    · rintro ⟨first, last, r'', rfl, h, h'⟩
      obtain ⟨rfl, rfl⟩ := runs_done.1 h
      exact h'
  | call c next ih =>
    constructor
    · intro h
      obtain ⟨a, rest, rfl, h'⟩ := runs_call.1 h
      obtain ⟨first, last, r', rfl, h1, h2⟩ := (ih a).1 h'
      exact ⟨(c, a) :: first, last, r', rfl, .call c a h1, h2⟩
    · rintro ⟨first, last, r', rfl, h1, h2⟩
      obtain ⟨a, rest, rfl, h'⟩ := runs_call.1 h1
      exact .call c a ((ih a).2 ⟨rest, last, r', rfl, h', h2⟩)

/-- A run that starts with one of the first program goes on with the second. -/
theorem runs_bind_append {p : Prog C A R} {f : R → Prog C A S} {first last : List (C × A)} {r' : R}
    {r : S} (h : Runs p first r') : Runs (p.bind f) (first ++ last) r ↔ Runs (f r') last r := by
  induction h with
  | done r' => exact Iff.rfl
  | call c a h ih =>
    rw [← ih]
    constructor
    · intro hrun
      obtain ⟨a', rest, htrace, h'⟩ := runs_call.1 hrun
      obtain ⟨hcall, rfl⟩ := List.cons.inj htrace
      obtain rfl := (Prod.mk.inj hcall).2
      exact h'
    · exact fun hrun => .call c a hrun

/-- A program, another and a third one, in either grouping. -/
theorem bind_assoc {T : Type} (p : Prog C A R) (f : R → Prog C A S) (g : S → Prog C A T) :
    (p.bind f).bind g = p.bind fun r => (f r).bind g := by
  induction p with
  | done r => rfl
  | call c next ih => exact congrArg (call c) (funext ih)

/-- A program that is then done with its result. -/
theorem bind_done (p : Prog C A R) : p.bind done = p := by
  induction p with
  | done r => rfl
  | call c next ih => exact congrArg (call c) (funext ih)

/-- The run of a program on a sequence of answers: its result and its trace. -/
def exec : Prog C A R → (ℕ → A) → R × List (C × A)
  | done r, _ => (r, [])
  | call c next, answers =>
    let (r, trace) := (next (answers 0)).exec fun n => answers (n + 1)
    (r, (c, answers 0) :: trace)

/-- Executed on one answer, programs in sequence are executed one after the other. -/
theorem exec_bind (p : Prog C A R) (f : R → Prog C A S) (a : A) :
    ((p.bind f).exec fun _ => a).1 = ((f (p.exec fun _ => a).1).exec fun _ => a).1 := by
  induction p with
  | done r => rfl
  | call c next ih => exact ih a

/-- The calls of the first come before those of the other. -/
theorem exec_bind_trace (p : Prog C A R) (f : R → Prog C A S) (a : A) :
    ((p.bind f).exec fun _ => a).2 = (p.exec fun _ => a).2 ++
      ((f (p.exec fun _ => a).1).exec fun _ => a).2 := by
  induction p with
  | done r => rfl
  | call c next ih => exact congrArg ((c, a) :: ·) (ih a)

/-- Executed on one answer, every call has that answer. -/
theorem exec_answers (p : Prog C A R) (a : A) : ∀ step ∈ (p.exec fun _ => a).2, step.2 = a := by
  induction p with
  | done r => exact fun step h => absurd h List.not_mem_nil
  | call c next ih =>
    intro step h
    rcases List.mem_cons.1 h with rfl | h
    · rfl
    · exact ih a step h

/-- What is executed is a run. -/
theorem exec_runs (p : Prog C A R) (answers : ℕ → A) :
    p.Runs (p.exec answers).2 (p.exec answers).1 := by
  induction p generalizing answers with
  | done r => exact .done r
  | call c next ih => exact .call c (answers 0) (ih (answers 0) _)

end Prog

/-- A program with a state that may fail. -/
def Act (C A σ ε α : Type) : Type := σ → Prog C A (Except ε α × σ)

namespace Act

instance : Monad (Act C A σ ε) where
  pure a := fun s => .done (.ok a, s)
  bind m f := fun s => (m s).bind fun
    | (.ok a, s') => f a s'
    | (.error e, s') => .done (.error e, s')

/-- Returning what a program returns changes nothing. -/
theorem id_map_act {α : Type} (m : Act C A σ ε α) : id <$> m = m := by
  funext s
  show (m s).bind _ = m s
  rw [← Prog.bind_done (m s), Prog.bind_assoc]
  congr 1
  funext r
  obtain ⟨r, s'⟩ := r
  cases r <;> rfl

/-- Sequencing is associative. -/
theorem bind_assoc_act {α β γ : Type} (m : Act C A σ ε α) (f : α → Act C A σ ε β)
    (g : β → Act C A σ ε γ) : m >>= f >>= g = m >>= fun a => f a >>= g := by
  funext s
  show ((m s).bind _).bind _ = (m s).bind _
  rw [Prog.bind_assoc]
  congr 1
  funext r
  obtain ⟨r, s'⟩ := r
  cases r <;> rfl

instance : LawfulMonad (Act C A σ ε) :=
  LawfulMonad.mk' (Act C A σ ε) id_map_act (fun _ _ => rfl) bind_assoc_act

/-- Makes a call and returns its answer. -/
def ask (c : C) : Act C A σ ε A := fun s => .call c fun a => .done (.ok a, s)

/-- The state. -/
def get : Act C A σ ε σ := fun s => .done (.ok s, s)

/-- Changes the state. -/
def modify (f : σ → σ) : Act C A σ ε Unit := fun s => .done (.ok (), f s)

/-- Fails. -/
def throw (e : ε) : Act C A σ ε α := fun s => .done (.error e, s)

/-- From the state `s` the action makes the calls of the trace, comes to `r` and leaves `s'`. -/
def Runs (m : Act C A σ ε α) (s : σ) (trace : List (C × A)) (r : Except ε α) (s' : σ) : Prop :=
  (m s).Runs trace (r, s')

variable {s s' : σ} {trace : List (C × A)}

/-- A value is returned without a call. -/
@[simp] theorem runs_pure {a : α} {r : Except ε α} :
    Runs (pure a : Act C A σ ε α) s trace r s' ↔ trace = [] ∧ r = .ok a ∧ s' = s := by
  show Prog.Runs (.done (.ok a, s)) trace (r, s') ↔ _
  rw [Prog.runs_done, Prod.mk.injEq]

/-- An error is raised without a call. -/
@[simp] theorem runs_throw {e : ε} {r : Except ε α} :
    Runs (throw e : Act C A σ ε α) s trace r s' ↔ trace = [] ∧ r = .error e ∧ s' = s := by
  show Prog.Runs (.done (.error e, s)) trace (r, s') ↔ _
  rw [Prog.runs_done, Prod.mk.injEq]

/-- A call returns its answer. -/
@[simp] theorem runs_ask {c : C} {r : Except ε A} :
    Runs (ask c : Act C A σ ε A) s trace r s' ↔
      ∃ a, trace = [(c, a)] ∧ r = .ok a ∧ s' = s := by
  show Prog.Runs (.call c fun a => .done (.ok a, s)) trace (r, s') ↔ _
  rw [Prog.runs_call]
  constructor
  · rintro ⟨a, rest, rfl, h⟩
    obtain ⟨rfl, h'⟩ := Prog.runs_done.1 h
    obtain ⟨rfl, rfl⟩ := Prod.mk.inj h'
    exact ⟨a, rfl, rfl, rfl⟩
  · rintro ⟨a, rfl, rfl, rfl⟩
    exact ⟨a, [], rfl, .done _⟩

/-- The state is read without a call. -/
@[simp] theorem runs_get {r : Except ε σ} :
    Runs (get : Act C A σ ε σ) s trace r s' ↔ trace = [] ∧ r = .ok s ∧ s' = s := by
  show Prog.Runs (.done (.ok s, s)) trace (r, s') ↔ _
  rw [Prog.runs_done, Prod.mk.injEq]

/-- The state is changed without a call. -/
@[simp] theorem runs_modify {f : σ → σ} {r : Except ε Unit} :
    Runs (modify f : Act C A σ ε Unit) s trace r s' ↔ trace = [] ∧ r = .ok () ∧ s' = f s := by
  show Prog.Runs (.done (.ok (), f s)) trace (r, s') ↔ _
  rw [Prog.runs_done, Prod.mk.injEq]

/-- An action in sequence fails with its first part, or goes on with its second. -/
theorem runs_bind {m : Act C A σ ε α} {f : α → Act C A σ ε β} {r : Except ε β} :
    Runs (m >>= f) s trace r s' ↔
      (∃ e, Runs m s trace (.error e) s' ∧ r = .error e) ∨
        ∃ a mid first last, Runs m s first (.ok a) mid ∧ Runs (f a) mid last r s' ∧
          trace = first ++ last := by
  show Prog.Runs ((m s).bind _) trace (r, s') ↔ _
  rw [Prog.runs_bind]
  constructor
  · rintro ⟨first, last, ⟨x, mid⟩, rfl, h1, h2⟩
    cases x with
    | error e =>
      obtain ⟨rfl, h'⟩ := Prog.runs_done.1 h2
      obtain ⟨rfl, rfl⟩ := Prod.mk.inj h'
      left
      exact ⟨e, by simpa [Runs] using h1, rfl⟩
    | ok a => exact Or.inr ⟨a, mid, first, last, h1, h2, rfl⟩
  · rintro (⟨e, h1, rfl⟩ | ⟨a, mid, first, last, h1, h2, rfl⟩)
    · exact ⟨trace, [], (.error e, s'), by simp, h1, .done _⟩
    · exact ⟨first, last, (.ok a, mid), rfl, h1, h2⟩

/-- After a run of the first part, an action goes on with the second. -/
theorem runs_bind_append {m : Act C A σ ε α} {f : α → Act C A σ ε β} {first last : List (C × A)}
    {x : α} {mid : σ} {r : Except ε β} (h : Runs m s first (.ok x) mid) :
    Runs (m >>= f) s (first ++ last) r s' ↔ Runs (f x) mid last r s' :=
  Prog.runs_bind_append h

/-- A call in sequence. -/
@[simp] theorem runs_ask_bind {c : C} {f : A → Act C A σ ε β} {r : Except ε β} :
    Runs (ask c >>= f) s trace r s' ↔
      ∃ a rest, trace = (c, a) :: rest ∧ Runs (f a) s rest r s' := by
  rw [runs_bind]
  constructor
  · rintro (⟨e, h, -⟩ | ⟨a, mid, first, last, h1, h2, rfl⟩)
    · obtain ⟨a, -, h, -⟩ := runs_ask.1 h
      exact absurd h (by simp)
    · obtain ⟨a', rfl, h, rfl⟩ := runs_ask.1 h1
      obtain rfl := Except.ok.inj h
      exact ⟨a, last, rfl, h2⟩
  · rintro ⟨a, rest, rfl, h⟩
    exact Or.inr ⟨a, s, [(c, a)], rest, runs_ask.2 ⟨a, rfl, rfl, rfl⟩, h, rfl⟩

/-- Reading the state in sequence. -/
@[simp] theorem runs_get_bind {f : σ → Act C A σ ε β} {r : Except ε β} :
    Runs (get >>= f) s trace r s' ↔ Runs (f s) s trace r s' := Iff.rfl

/-- Changing the state in sequence. -/
@[simp] theorem runs_modify_bind {g : σ → σ} {f : Unit → Act C A σ ε β} {r : Except ε β} :
    Runs (modify g >>= f) s trace r s' ↔ Runs (f ()) (g s) trace r s' := Iff.rfl

/-- A return in sequence. -/
@[simp] theorem runs_pure_bind {a : α} {f : α → Act C A σ ε β} {r : Except ε β} :
    Runs ((pure a : Act C A σ ε α) >>= f) s trace r s' ↔ Runs (f a) s trace r s' := Iff.rfl

/-- A failure in sequence. -/
@[simp] theorem runs_throw_bind {e : ε} {f : α → Act C A σ ε β} {r : Except ε β} :
    Runs ((throw e : Act C A σ ε α) >>= f) s trace r s' ↔
      trace = [] ∧ r = .error e ∧ s' = s := by
  show Prog.Runs (.done (.error e, s)) trace (r, s') ↔ _
  rw [Prog.runs_done, Prod.mk.injEq]

/-- The state and the result of an action on given answers, and its trace. -/
def exec (m : Act C A σ ε α) (s : σ) (answers : ℕ → A) : (Except ε α × σ) × List (C × A) :=
  (m s).exec answers

section
variable {answers : ℕ → A}

/-- Returning a value takes no answer. -/
@[simp] theorem exec_pure {a : α} :
    (pure a : Act C A σ ε α).exec s answers = ((.ok a, s), []) := rfl

/-- Raising an error takes no answer. -/
@[simp] theorem exec_throw {e : ε} :
    (throw e : Act C A σ ε α).exec s answers = ((.error e, s), []) := rfl

/-- A call takes the first answer, and what follows takes those behind it. -/
@[simp] theorem exec_ask_bind {c : C} {f : A → Act C A σ ε β} :
    (ask c >>= f).exec s answers =
      (((f (answers 0)).exec s fun n => answers (n + 1)).1,
        (c, answers 0) :: ((f (answers 0)).exec s fun n => answers (n + 1)).2) := rfl

/-- Reading the state takes no answer. -/
@[simp] theorem exec_get_bind {f : σ → Act C A σ ε β} :
    (get >>= f).exec s answers = (f s).exec s answers := rfl

/-- Changing the state takes no answer. -/
@[simp] theorem exec_modify_bind {g : σ → σ} {f : Unit → Act C A σ ε β} :
    (modify g >>= f).exec s answers = (f ()).exec (g s) answers := rfl

/-- Nothing follows an error. -/
@[simp] theorem exec_throw_bind {e : ε} {f : α → Act C A σ ε β} :
    (throw e >>= f).exec s answers = ((.error e, s), []) := rfl

end

/-- What is executed is a run. -/
theorem exec_runs (m : Act C A σ ε α) (s : σ) (answers : ℕ → A) :
    m.Runs s (m.exec s answers).2 (m.exec s answers).1.1 (m.exec s answers).1.2 :=
  Prog.exec_runs (m s) answers

/-- Executed on one answer, an action in sequence makes the calls of its first part. -/
theorem mem_exec_bind {m : Act C A σ ε α} {f : α → Act C A σ ε β} {a : A} {step : C × A}
    (h : step ∈ (m.exec s fun _ => a).2) : step ∈ ((m >>= f).exec s fun _ => a).2 := by
  show step ∈ (((m s).bind _).exec _).2
  rw [Prog.exec_bind_trace]
  exact List.mem_append_left _ h

end Act

end IUserApps.Interact
