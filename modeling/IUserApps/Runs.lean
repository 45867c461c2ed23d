import Mathlib.Data.List.Basic
import Mathlib.Tactic.Common

/-!
# Runs of a step function

A program that handles one input after another is a step function `σ → ι → σ`, and its runs are
`List.foldl step`. `Along step P s is` says that `P` holds of every step of the run from `s` on
`is`, of the state before the step and its input. The rules here lift a fact about one step to
every run: an invariant that the steps keep holds in the last state (`foldl_of_invariant`), and
whatever follows from the invariant at each step holds along the run (`Along.of_invariant`).
-/

namespace IUserApps.Runs

variable {σ ι : Type*} {step : σ → ι → σ} {P Q : σ → ι → Prop}

/-- `P` holds of every step of the run of `step` from a state on a list of inputs. -/
def Along (step : σ → ι → σ) (P : σ → ι → Prop) : σ → List ι → Prop
  | _, [] => True
  | s, i :: is => P s i ∧ Along step P (step s i) is

instance Along.decidable [∀ s i, Decidable (P s i)] :
    ∀ (s : σ) (is : List ι), Decidable (Along step P s is)
  | _, [] => .isTrue trivial
  | s, i :: is =>
    have := Along.decidable (step s i) is
    inferInstanceAs (Decidable (_ ∧ _))

/-- Nothing is asked of an empty run. -/
@[simp] theorem along_nil (s : σ) : Along step P s [] := trivial

/-- A run is asked for what its first step is, and then for the rest. -/
@[simp] theorem along_cons (s : σ) (i : ι) (is : List ι) :
    Along step P s (i :: is) ↔ P s i ∧ Along step P (step s i) is := Iff.rfl

/-- A run on two lists in turn. -/
theorem along_append (s : σ) (is js : List ι) :
    Along step P s (is ++ js) ↔ Along step P s is ∧ Along step P (is.foldl step s) js := by
  induction is generalizing s with
  | nil => simp
  | cons i is ih => simp [ih, and_assoc]

/-- The step that the run takes at a given place satisfies `P`. -/
theorem Along.at {s : σ} {is js : List ι} {i : ι} (h : Along step P s (is ++ i :: js)) :
    P (is.foldl step s) i := by
  rw [along_append] at h
  exact h.2.1

/-- A property of steps is weakened along a run. -/
theorem Along.mono {s : σ} {is : List ι} (h : Along step P s is) (hPQ : ∀ s i, P s i → Q s i) :
    Along step Q s is := by
  induction is generalizing s with
  | nil => trivial
  | cons i is ih => exact ⟨hPQ s i h.1, ih h.2⟩

/-- Two properties of the steps of one run. -/
theorem along_and {s : σ} {is : List ι} :
    Along step (fun s i => P s i ∧ Q s i) s is ↔ Along step P s is ∧ Along step Q s is := by
  induction is generalizing s with
  | nil => simp
  | cons i is ih =>
    simp only [along_cons, ih]
    exact and_and_and_comm

/-- `P` along a run is `P` at each of its steps. -/
theorem along_iff {s : σ} {is : List ι} :
    Along step P s is ↔ ∀ as i bs, is = as ++ i :: bs → P (as.foldl step s) i := by
  constructor
  · rintro h as i bs rfl
    exact h.at
  · intro h
    induction is generalizing s with
    | nil => trivial
    | cons i is ih =>
      refine ⟨h [] i is rfl, ih ?_⟩
      intro as j bs hs
      exact h (i :: as) j bs (by rw [hs, List.cons_append])

/-- An invariant that every step meeting `P` keeps holds in the last state of a run whose steps
all meet `P`. -/
theorem foldl_of_invariant (Inv : σ → Prop) (hstep : ∀ s i, Inv s → P s i → Inv (step s i))
    {s : σ} {is : List ι} (hs : Inv s) (h : Along step P s is) : Inv (is.foldl step s) := by
  induction is generalizing s with
  | nil => exact hs
  | cons i is ih => exact ih (hstep s i hs h.1) h.2

/-- What follows from an invariant at each step holds along every run whose steps meet `P`. -/
theorem Along.of_invariant (Inv : σ → Prop) (hstep : ∀ s i, Inv s → P s i → Inv (step s i))
    (hQ : ∀ s i, Inv s → P s i → Q s i) {s : σ} {is : List ι} (hs : Inv s)
    (h : Along step P s is) : Along step Q s is := by
  induction is generalizing s with
  | nil => trivial
  | cons i is ih => exact ⟨hQ s i hs h.1, ih (hstep s i hs h.1) h.2⟩

/-- Two properties of steps that an invariant makes equivalent are equivalent along every run, when
the steps that satisfy them keep the invariant. -/
theorem along_congr_of_invariant (Inv : σ → Prop) (hiff : ∀ s i, Inv s → (P s i ↔ Q s i))
    (hstep : ∀ s i, Inv s → P s i → Inv (step s i)) {s : σ} {is : List ι} (hs : Inv s) :
    Along step P s is ↔ Along step Q s is := by
  induction is generalizing s with
  | nil => simp
  | cons i is ih =>
    constructor
    · rintro ⟨h, hr⟩
      exact ⟨(hiff s i hs).1 h, (ih (hstep s i hs h)).1 hr⟩
    · rintro ⟨h, hr⟩
      have hP := (hiff s i hs).2 h
      exact ⟨hP, (ih (hstep s i hs hP)).2 hr⟩

/-- A run that another one follows, state by state and input by input, satisfies what corresponds.
-/
theorem along_map {τ κ : Type*} {step' : τ → κ → τ} {P' : τ → κ → Prop} (abs : σ → τ) (f : ι → κ)
    (Inv : σ → Prop) {s : σ} {is : List ι}
    (hstep : ∀ s, ∀ i ∈ is, Inv s → Inv (step s i) ∧ abs (step s i) = step' (abs s) (f i))
    (hP : ∀ s, ∀ i ∈ is, Inv s → (P s i ↔ P' (abs s) (f i))) (hs : Inv s) :
    Along step P s is ↔ Along step' P' (abs s) (is.map f) := by
  induction is generalizing s with
  | nil => exact Iff.rfl
  | cons i is ih =>
    obtain ⟨hinv, habs⟩ := hstep s i List.mem_cons_self hs
    rw [List.map_cons, along_cons, along_cons, hP s i List.mem_cons_self hs, ← habs]
    refine and_congr_right fun _ => ih ?_ ?_ hinv
    · exact fun s j hj => hstep s j (List.mem_cons_of_mem i hj)
    · exact fun s j hj => hP s j (List.mem_cons_of_mem i hj)

/-! ## Coming to rest -/

variable {m : σ → ℕ}

/-- Inputs that each take the state on or leave it alone: together they take it on, or each of them
leaves it alone. -/
theorem foldl_work {s : σ} {is : List ι} (h : ∀ s, ∀ i ∈ is, step s i = s ∨ m (step s i) < m s) :
    m (is.foldl step s) < m s ∨ is.foldl step s = s ∧ ∀ i ∈ is, step s i = s := by
  induction is generalizing s with
  | nil => exact .inr ⟨rfl, fun i hi => absurd hi List.not_mem_nil⟩
  | cons i is ih =>
    have hrest := ih (s := step s i) fun s j hj => h s j (List.mem_cons_of_mem i hj)
    rw [List.foldl_cons]
    rcases h s i List.mem_cons_self with hsame | hless
    · rw [hsame] at hrest ⊢
      exact hrest.imp_right fun hr => ⟨hr.1, List.forall_mem_cons.2 ⟨hsame, hr.2⟩⟩
    · left
      rcases hrest with hlt | hr
      · exact Nat.lt_trans hlt hless
      · rwa [hr.1]

/-- Inputs that leave a state alone, one after another. -/
theorem foldl_still {s : σ} {is : List ι} (h : ∀ i ∈ is, step s i = s) : is.foldl step s = s := by
  induction is with
  | nil => rfl
  | cons i is ih =>
    rw [List.foldl_cons, h i List.mem_cons_self]
    exact ih fun j hj => h j (List.mem_cons_of_mem i hj)

/-- As many rounds as there is work take a state to one where it rests, if the inputs of a round
leave only a state alone that rests. -/
theorem rests_of_rounds {Rest : σ → Prop} {rounds : List (List ι)}
    (hstep : ∀ s, ∀ r ∈ rounds, ∀ i ∈ r, step s i = s ∨ m (step s i) < m s)
    (hrest : ∀ s, ∀ r ∈ rounds, (∀ i ∈ r, step s i = s) → Rest s)
    (hstay : ∀ s, Rest s → ∀ r ∈ rounds, ∀ i ∈ r, step s i = s)
    (hzero : ∀ s, m s = 0 → Rest s) {s : σ} (hlen : m s ≤ rounds.length) :
    Rest (rounds.flatten.foldl step s) := by
  induction rounds generalizing s with
  | nil => exact hzero s (Nat.le_zero.1 hlen)
  | cons r rounds ih =>
    have htail := @ih (fun s r' hr' => hstep s r' (List.mem_cons_of_mem r hr'))
      (fun s r' hr' => hrest s r' (List.mem_cons_of_mem r hr'))
      (fun s hs r' hr' => hstay s hs r' (List.mem_cons_of_mem r hr'))
    rw [List.flatten_cons, List.foldl_append]
    rw [List.length_cons] at hlen
    have hround := foldl_work (s := s) fun s i hi => hstep s r List.mem_cons_self i hi
    rcases hround with hlt | ⟨hsame, hr⟩
    · exact htail (by omega)
    · have hs : Rest s := hrest s r List.mem_cons_self hr
      have hall : ∀ i ∈ rounds.flatten, step s i = s := fun i hi => by
        obtain ⟨r', hr', hi'⟩ := List.mem_flatten.1 hi
        exact hstay s hs r' (List.mem_cons_of_mem r hr') i hi'
      rw [hsame, foldl_still hall]
      exact hs

end IUserApps.Runs
