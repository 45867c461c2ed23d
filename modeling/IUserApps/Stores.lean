import IUserApps.Runs
import Mathlib.Logic.Function.Basic

/-!
# Sequences of stores

A memory is a function from addresses to values, and a store puts a value at one address: a given
one, or a copy of what another address holds at that moment. Where a sequence stores to each address
at most once, what an address holds before and after the sequence is the same exactly when no store
of it changes it (`along_idle_iff`), and what is stored at an address is what it holds at the end
(`run_append_of_nodup`).
-/

namespace IUserApps.Stores

open Runs

variable {α β : Type*} [DecidableEq α]

/-- A store to one address. -/
inductive Store (α β : Type*)
  | put (target : α) (value : β)
  | move (target source : α)

namespace Store

/-- The address that is stored to. -/
def target : Store α β → α
  | put target _ => target
  | move target _ => target

/-- The value that is stored. -/
def value (m : α → β) : Store α β → β
  | put _ value => value
  | move _ source => m source

/-- The memory after a store. -/
def step (m : α → β) (store : Store α β) : α → β :=
  Function.update m store.target (store.value m)

end Store

/-- The memory after a sequence of stores. -/
def run (m : α → β) (stores : List (Store α β)) : α → β := stores.foldl Store.step m

/-- A store leaves what an address holds. -/
def Idle (a : α) (m : α → β) (store : Store α β) : Prop := store.target = a → store.step m a = m a

/-- Without a store the memory stays. -/
@[simp] theorem run_nil (m : α → β) : run m [] = m := rfl

/-- The first store is made, then the others. -/
theorem run_cons (m : α → β) (store : Store α β) (stores : List (Store α β)) :
    run m (store :: stores) = run (store.step m) stores := rfl

/-- Stores in sequence: the first ones, then the others. -/
theorem run_append (m : α → β) (first last : List (Store α β)) :
    run m (first ++ last) = run (run m first) last := List.foldl_append

/-- A store leaves every other place. -/
theorem step_of_ne {m : α → β} {store : Store α β} {a : α} (h : store.target ≠ a) :
    store.step m a = m a := Function.update_of_ne h.symm _ _

/-- A store leaves its value at its place. -/
theorem step_target (m : α → β) (store : Store α β) :
    store.step m store.target = store.value m := Function.update_self _ _ _

/-- An address that nothing is stored to keeps what it holds. -/
theorem run_of_notMem {stores : List (Store α β)} {a : α} (h : a ∉ stores.map Store.target)
    (m : α → β) : run m stores a = m a := by
  induction stores generalizing m with
  | nil => rfl
  | cons store stores ih =>
    rw [List.map_cons, List.mem_cons, not_or] at h
    rw [run_cons, ih h.2, step_of_ne (Ne.symm h.1)]

/-- No store of the sequence is to the address. -/
theorem along_idle_of_notMem {stores : List (Store α β)} {a : α}
    (h : a ∉ stores.map Store.target) (m : α → β) : Along Store.step (Idle a) m stores := by
  induction stores generalizing m with
  | nil => trivial
  | cons store stores ih =>
    rw [List.map_cons, List.mem_cons, not_or] at h
    exact ⟨fun heq => absurd heq.symm h.1, ih h.2 _⟩

/-- An address that is stored to at most once holds the same before and after exactly when no store
changes it. -/
theorem along_idle_iff {stores : List (Store α β)} (h : (stores.map Store.target).Nodup)
    (a : α) (m : α → β) : Along Store.step (Idle a) m stores ↔ run m stores a = m a := by
  induction stores generalizing m with
  | nil => simp
  | cons store stores ih =>
    rw [List.map_cons, List.nodup_cons] at h
    rw [along_cons, run_cons]
    rcases eq_or_ne store.target a with rfl | hne
    · rw [run_of_notMem h.1]
      constructor
      · intro hidle
        exact hidle.1 rfl
      · intro hsame
        exact ⟨fun _ => hsame, along_idle_of_notMem h.1 _⟩
    · rw [ih h.2, step_of_ne hne]
      exact and_iff_right fun heq => absurd heq hne

/-- What is stored at an address is what it holds at the end, when nothing else is stored there. -/
theorem run_append_of_nodup {before after : List (Store α β)} {store : Store α β}
    (h : ((before ++ store :: after).map Store.target).Nodup) (m : α → β) :
    run m (before ++ store :: after) store.target = store.value (run m before) := by
  rw [List.map_append, List.map_cons, List.nodup_append, List.nodup_cons] at h
  rw [run_append, run_cons, run_of_notMem h.2.1.1, step_target]

/-- A value put at an address where nothing else is stored is there at the end. -/
theorem run_of_put {stores : List (Store α β)} (h : (stores.map Store.target).Nodup) {a : α} {v : β}
    (hmem : Store.put a v ∈ stores) (m : α → β) : run m stores a = v := by
  obtain ⟨before, after, rfl⟩ := List.append_of_mem hmem
  exact run_append_of_nodup h m

/-! ## Two moments of one sequence -/

/-- The stores between two moments of a sequence, which are its first parts. -/
def between (first last : List (Store α β)) : List (Store α β) :=
  if first.length ≤ last.length then last.drop first.length else first.drop last.length

/-- The earlier of two moments. -/
def earlier (first last : List (Store α β)) : List (Store α β) :=
  if first.length ≤ last.length then first else last

/-- No store between two moments changes what an address holds. -/
def Kept (m : α → β) (first last : List (Store α β)) (a : α) : Prop :=
  Along Store.step (Idle a) (run m (earlier first last)) (between first last)

/-- An address holds the same at two moments of a sequence that stores to each address at most once
exactly when no store between them changes it. -/
theorem kept_iff {all first last : List (Store α β)} (hnodup : (all.map Store.target).Nodup)
    (hfirst : first <+: all) (hlast : last <+: all) (m : α → β) (a : α) :
    Kept m first last a ↔ run m first a = run m last a := by
  have hone : ∀ {x y : List (Store α β)}, x <+: y → y <+: all →
      (Along Store.step (Idle a) (run m x) (y.drop x.length) ↔ run m y a = run m x a) := by
    rintro x y ⟨rest, rfl⟩ ⟨tail, rfl⟩
    rw [List.map_append, List.map_append, List.nodup_append, List.nodup_append] at hnodup
    rw [List.drop_left, along_idle_iff hnodup.1.2.1, run_append]
  unfold Kept between earlier
  rcases Nat.le_total first.length last.length with hle | hle
  · rw [if_pos hle, if_pos hle, hone (List.prefix_of_prefix_length_le hfirst hlast hle) hlast]
    exact eq_comm
  · have hext := List.prefix_of_prefix_length_le hlast hfirst hle
    split
    next hge =>
      have hsame : first = last := (hext.eq_of_length (Nat.le_antisymm hle hge)).symm
      rw [hsame, List.drop_length]
      exact iff_of_true trivial rfl
    next => exact hone hext hfirst

/-- An address that no store of the sequence is to. -/
theorem kept_of_notMem {all first last : List (Store α β)} (hfirst : first <+: all)
    (hlast : last <+: all) {a : α} (h : a ∉ all.map Store.target) (m : α → β) :
    Kept m first last a := by
  unfold Kept between
  split
  · refine along_idle_of_notMem (fun hmem => h ?_) _
    exact List.map_subset _ (List.Subset.trans (List.drop_subset _ _) hlast.subset) hmem
  · refine along_idle_of_notMem (fun hmem => h ?_) _
    exact List.map_subset _ (List.Subset.trans (List.drop_subset _ _) hfirst.subset) hmem

end IUserApps.Stores
