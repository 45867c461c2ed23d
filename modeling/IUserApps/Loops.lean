import Mathlib.Data.Nat.Notation
import Mathlib.Tactic.Common

/-!
# Counted loops

`upTo lo hi body s` is the loop `for (i = lo; i < hi; ++i) s = body(i, s)`. Its rule is the usual
one: an invariant indexed by the counter, which each pass moves on by one (`upTo_rule`). A loop over
a list whose body may fail is `List.foldlM`; the rules for it speak of the part already passed.
-/

namespace IUserApps.Loops

variable {σ : Type*}

/-- `n` passes of a loop whose counter starts at `lo`. -/
def passes (body : ℕ → σ → σ) : ℕ → ℕ → σ → σ
  | 0, _, s => s
  | n + 1, lo, s => passes body n (lo + 1) (body lo s)

/-- The loop over `lo ≤ i < hi`. -/
def upTo (lo hi : ℕ) (body : ℕ → σ → σ) (s : σ) : σ := passes body (hi - lo) lo s

/-- An invariant of the passes, from any value of the counter. -/
theorem passes_rule {body : ℕ → σ → σ} (Inv : ℕ → σ → Prop) (n lo : ℕ) {s : σ}
    (hs : Inv lo s) (hstep : ∀ i s, lo ≤ i → i < lo + n → Inv i s → Inv (i + 1) (body i s)) :
    Inv (lo + n) (passes body n lo s) := by
  induction n generalizing lo s with
  | zero => exact hs
  | succ n ih =>
    have h := ih (lo + 1) (hstep lo s (Nat.le_refl lo) (by omega) hs)
      (fun i s hl hh => hstep i s (by omega) (by omega))
    rw [Nat.add_right_comm] at h
    exact h

/-- The rule of a counted loop that starts at or below its bound. -/
theorem upTo_rule {body : ℕ → σ → σ} (Inv : ℕ → σ → Prop) {lo hi : ℕ} (hle : lo ≤ hi) {s : σ}
    (hs : Inv lo s) (hstep : ∀ i s, lo ≤ i → i < hi → Inv i s → Inv (i + 1) (body i s)) :
    Inv hi (upTo lo hi body s) := by
  have h := passes_rule Inv (hi - lo) lo hs (fun i s hl hh => hstep i s hl (by omega))
  rwa [Nat.add_sub_cancel' hle] at h

/-- A loop that starts at or past its bound makes no pass. -/
theorem upTo_of_le {body : ℕ → σ → σ} {lo hi : ℕ} (h : hi ≤ lo) (s : σ) :
    upTo lo hi body s = s := by
  rw [upTo, Nat.sub_eq_zero_of_le h]
  rfl

/-- A property that every pass keeps holds after the loop. -/
theorem upTo_keeps {body : ℕ → σ → σ} (P : σ → Prop) {lo hi : ℕ} {s : σ} (hs : P s)
    (hstep : ∀ i s, lo ≤ i → i < hi → P s → P (body i s)) : P (upTo lo hi body s) := by
  rcases Nat.le_total lo hi with h | h
  · exact upTo_rule (fun _ => P) h hs hstep
  · rw [upTo_of_le h]
    exact hs

/-- A loop each of whose passes either gives a place the value `new` or leaves it: what the place
holds after the loop. `Q` says that some pass writes it. -/
theorem upTo_writes {β : Type*} {body : ℕ → σ → σ} (read : σ → β) (new : β) (P : ℕ → Prop)
    [DecidablePred P] {lo hi : ℕ} {s : σ}
    (hpass : ∀ i s, lo ≤ i → i < hi → read (body i s) = if P i then new else read s)
    {Q : Prop} [Decidable Q] (hQ : Q ↔ ∃ i, lo ≤ i ∧ i < hi ∧ P i) :
    read (upTo lo hi body s) = if Q then new else read s := by
  rcases Nat.le_total lo hi with hle | hle
  · have hloop : ((∃ i, lo ≤ i ∧ i < hi ∧ P i) → read (upTo lo hi body s) = new) ∧
        ((¬∃ i, lo ≤ i ∧ i < hi ∧ P i) → read (upTo lo hi body s) = read s) := by
      refine upTo_rule (fun k t => ((∃ i, lo ≤ i ∧ i < k ∧ P i) → read t = new) ∧
        ((¬∃ i, lo ≤ i ∧ i < k ∧ P i) → read t = read s)) hle ?_ ?_
      · refine ⟨?_, fun _ => rfl⟩
        rintro ⟨i, hl, hh, -⟩
        omega
      · rintro k t hl hh ⟨hwritten, hleft⟩
        rw [hpass k t hl hh]
        split
        · next hk => exact ⟨fun _ => rfl, fun hnone => absurd ⟨k, hl, k.lt_succ_self, hk⟩ hnone⟩
        · next hk =>
          -- The pass has left the place, so the passes that wrote it are those before.
          have hsame : (∃ i, lo ≤ i ∧ i < k + 1 ∧ P i) ↔ ∃ i, lo ≤ i ∧ i < k ∧ P i := by
            constructor
            · rintro ⟨i, hi, hlt, hP⟩
              have hne : i ≠ k := by
                rintro rfl
                exact hk hP
              exact ⟨i, hi, by omega, hP⟩
            · rintro ⟨i, hi, hlt, hP⟩
              exact ⟨i, hi, by omega, hP⟩
          rw [hsame]
          exact ⟨hwritten, hleft⟩
    split
    · next h => exact hloop.1 (hQ.1 h)
    · next h => exact hloop.2 fun hex => h (hQ.2 hex)
  · rw [upTo_of_le hle, if_neg]
    intro h
    obtain ⟨i, hl, hh, -⟩ := hQ.1 h
    omega

variable {ε ι : Type*} {f : σ → ι → Except ε σ}

/-- A loop over a list whose first pass may fail. -/
theorem foldlM_cons_ok {s r : σ} {i : ι} {is : List ι} :
    (i :: is).foldlM f s = .ok r ↔ ∃ s', f s i = .ok s' ∧ is.foldlM f s' = .ok r := by
  rw [List.foldlM_cons]
  cases h : f s i with
  | error e => exact iff_of_false (fun h => nomatch h) (fun ⟨_, hs, _⟩ => nomatch hs)
  | ok s' =>
    constructor
    · intro hr
      exact ⟨s', rfl, hr⟩
    · rintro ⟨s'', hs, hr⟩
      cases hs
      exact hr

/-- The rule of a loop over a list that has not failed: an invariant of the part passed. -/
theorem foldlM_rule (Inv : List ι → σ → Prop) {s r : σ} {is : List ι} (hs : Inv [] s)
    (hstep : ∀ done i s s', i ∈ is → Inv done s → f s i = .ok s' → Inv (done ++ [i]) s')
    (h : is.foldlM f s = .ok r) : Inv is r := by
  -- The part passed before the rest of the list is entered.
  suffices key : ∀ (rest done : List ι) (s : σ), done ++ rest = is → Inv done s →
      rest.foldlM f s = .ok r → Inv is r from key is [] s rfl hs h
  intro rest
  induction rest with
  | nil =>
    intro done s hsplit hd hr
    obtain rfl : s = r := Except.ok.inj hr
    rw [List.append_nil] at hsplit
    rw [← hsplit]
    exact hd
  | cons i rest ih =>
    intro done s hsplit hd hr
    obtain ⟨s', hi, hr'⟩ := foldlM_cons_ok.1 hr
    have hmem : i ∈ is := by
      rw [← hsplit]
      exact List.mem_append_right _ List.mem_cons_self
    exact ih (done ++ [i]) s' (by rw [List.append_assoc, List.singleton_append, hsplit])
      (hstep done i s s' hmem hd hi) hr'

/-- A loop over a list that contains a pass which always fails. -/
theorem foldlM_error {is : List ι} {i : ι} (hi : i ∈ is)
    (hfail : ∀ s, ∃ e, f s i = .error e) (s : σ) : ∃ e, is.foldlM f s = .error e := by
  cases h : is.foldlM f s with
  | error e => exact ⟨e, rfl⟩
  | ok r =>
    -- The passes done so far do not contain it.
    have hmem : i ∉ is := by
      refine foldlM_rule (fun done _ => i ∉ done) List.not_mem_nil ?_ h
      intro done j s s' _ hdone hj
      rw [List.mem_append, List.mem_singleton]
      rintro (hmem | rfl)
      · exact hdone hmem
      · obtain ⟨e, he⟩ := hfail s
        rw [hj] at he
        cases he
    exact absurd hi hmem

/-- A loop whose passes fail or not whatever the state ends exactly when none of them fails. -/
theorem foldlM_ok_iff {P : ι → Prop} {is : List ι}
    (h : ∀ i ∈ is, ∀ s, (∃ r, f s i = .ok r) ↔ P i) (s : σ) :
    (∃ r, is.foldlM f s = .ok r) ↔ ∀ i ∈ is, P i := by
  induction is generalizing s with
  | nil => exact iff_of_true ⟨s, rfl⟩ fun i hi => absurd hi List.not_mem_nil
  | cons i is ih =>
    have hrest := ih fun j hj => h j (List.mem_cons_of_mem i hj)
    rw [List.forall_mem_cons]
    constructor
    · rintro ⟨r, hr⟩
      obtain ⟨s', hi, hs'⟩ := foldlM_cons_ok.1 hr
      exact ⟨(h i List.mem_cons_self s).1 ⟨s', hi⟩, (hrest s').1 ⟨r, hs'⟩⟩
    · rintro ⟨hi, his⟩
      obtain ⟨s', hs'⟩ := (h i List.mem_cons_self s).2 hi
      obtain ⟨r, hr⟩ := (hrest s').2 his
      exact ⟨r, foldlM_cons_ok.2 ⟨s', hs', hr⟩⟩

/-- The rule of a counted loop whose passes do not fail under the invariant. -/
theorem foldlM_range_rule {f : σ → ℕ → Except ε σ} (Inv : ℕ → σ → Prop) {n : ℕ} {s : σ}
    (hs : Inv 0 s) (hstep : ∀ i < n, ∀ t, Inv i t → ∃ t', f t i = .ok t' ∧ Inv (i + 1) t') :
    ∃ t, (List.range n).foldlM f s = .ok t ∧ Inv n t := by
  induction n with
  | zero => exact ⟨s, rfl, hs⟩
  | succ n ih =>
    obtain ⟨t, ht, hinv⟩ := ih fun i hi => hstep i (by omega)
    obtain ⟨t', ht', hinv'⟩ := hstep n (Nat.lt_succ_self n) t hinv
    refine ⟨t', ?_, hinv'⟩
    rw [List.range_succ, List.foldlM_append, ht]
    exact foldlM_cons_ok.2 ⟨t', ht', rfl⟩

/-- A counted loop over an array whose passes do not fail and change different places, each of them
by `change`: what the places hold after the loop. -/
theorem foldlM_range_once {κ α : Type*} {f : (κ → α) → ℕ → Except ε (κ → α)} {change : κ → α → α}
    {hit : ℕ → κ → Prop} [∀ i k, Decidable (hit i k)] {n : ℕ} {s : κ → α}
    (hpass : ∀ i < n, ∀ t, ∃ t', f t i = .ok t' ∧
      ∀ k, t' k = if hit i k then change k (t k) else t k)
    (honce : ∀ i j k, hit i k → hit j k → i = j) :
    ∃ t, (List.range n).foldlM f s = .ok t ∧
      ∀ k, ((∃ i < n, hit i k) → t k = change k (s k)) ∧ ((¬∃ i < n, hit i k) → t k = s k) := by
  refine foldlM_range_rule (fun m (t : κ → α) => ∀ k,
    ((∃ i < m, hit i k) → t k = change k (s k)) ∧ ((¬∃ i < m, hit i k) → t k = s k)) ?_ ?_
  · refine fun k => ⟨?_, fun _ => rfl⟩
    rintro ⟨i, hi, -⟩
    omega
  · intro m hm t hplaces
    obtain ⟨t', ht', hlast⟩ := hpass m hm t
    refine ⟨t', ht', fun k => ?_⟩
    obtain ⟨hchanged, hleft⟩ := hplaces k
    rw [hlast k]
    by_cases hk : hit m k
    · -- No pass before has changed the place.
      have hnone : ¬∃ i < m, hit i k := by
        rintro ⟨i, hi, hik⟩
        exact absurd (honce i m k hik hk) (by omega)
      rw [if_pos hk, hleft hnone]
      exact ⟨fun _ => rfl, fun h => absurd ⟨m, m.lt_succ_self, hk⟩ h⟩
    · rw [if_neg hk]
      constructor
      · rintro ⟨i, hi, hik⟩
        have hne : i ≠ m := by
          rintro rfl
          exact hk hik
        exact hchanged ⟨i, by omega, hik⟩
      · intro h
        exact hleft fun ⟨i, hi, hik⟩ => h ⟨i, by omega, hik⟩

end IUserApps.Loops
