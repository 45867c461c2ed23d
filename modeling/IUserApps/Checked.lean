import IUserApps.Words
import Mathlib.Data.List.Infix

/-!
# Checked accesses

A program over arrays whose every access is checked: reading or writing outside one is a `Fault`.
`Safe x post` says that `x` makes no such access and that its result satisfies `post`; its rules
follow the shape of the program. A buffer that is only written from its start on is the list of what
has been written, with a capacity.
-/

namespace IUserApps.Checked

/-- An access outside an array. -/
inductive Fault
  | read (i : ℕ)
  | write (i : ℕ)
deriving DecidableEq, Repr

/-- A computation whose accesses are checked. -/
abbrev Access := Except Fault

variable {α β : Type}

/-- The computation makes no access outside an array, and its result satisfies `post`. -/
def Safe (x : Access α) (post : α → Prop) : Prop := ∃ a, x = .ok a ∧ post a

/-- A returned value needs no access. -/
theorem safe_pure {a : α} {post : α → Prop} (h : post a) : Safe (pure a) post := ⟨a, rfl, h⟩

/-- A value that is at hand needs no access. -/
theorem safe_ok {a : α} {post : α → Prop} (h : post a) : Safe (.ok a) post := ⟨a, rfl, h⟩

/-- What follows a value goes on with it. -/
theorem ok_bind (a : α) (f : α → Access β) : (.ok a >>= f : Access β) = f a := rfl

/-- A computation that succeeds, taken apart. -/
theorem ok_of_bind {x : Access α} {f : α → Access β} {b : β} (h : x >>= f = .ok b) :
    ∃ a, x = .ok a ∧ f a = .ok b := by
  cases x with
  | ok a => exact ⟨a, rfl, h⟩
  | error e => exact nomatch h

/-- What follows a failure is not run. -/
theorem error_bind {x : Access α} {f : α → Access β} (h : ∃ fault, x = .error fault) :
    ∃ fault, x >>= f = .error fault := by
  obtain ⟨fault, rfl⟩ := h
  exact ⟨fault, rfl⟩

/-- A computation and what follows it. -/
theorem Safe.bind {x : Access α} {f : α → Access β} {mid : α → Prop} {post : β → Prop}
    (hx : Safe x mid) (hf : ∀ a, mid a → Safe (f a) post) : Safe (x >>= f) post := by
  obtain ⟨a, rfl, ha⟩ := hx
  exact hf a ha

/-- A safe access may promise less. -/
theorem Safe.mono {x : Access α} {post post' : α → Prop} (h : Safe x post)
    (himp : ∀ a, post a → post' a) : Safe x post' := by
  obtain ⟨a, hx, ha⟩ := h
  exact ⟨a, hx, himp a ha⟩

/-- The computation with a known result. -/
theorem Safe.eq {x : Access α} {a : α} (h : Safe x (· = a)) : x = .ok a := by
  obtain ⟨b, rfl, rfl⟩ := h
  rfl

/-- Reads an element of an array. -/
def readAt (m : List α) (i : ℕ) : Access α :=
  match m[i]? with
  | some a => .ok a
  | none => .error (.read i)

/-- Reading below the length is safe, and gives the element there. -/
theorem readAt_safe {m : List α} {i : ℕ} (h : i < m.length) :
    Safe (readAt m i) (fun a => m[i]? = some a) := by
  refine ⟨m[i], ?_, List.getElem?_eq_getElem h⟩
  unfold readAt
  rw [List.getElem?_eq_getElem h]

/-- Reads `n` elements from a place on. -/
def readMany (m : List α) (i : ℕ) : ℕ → Access (List α)
  | 0 => .ok []
  | n + 1 => do
    let a ← readAt m i
    let rest ← readMany m (i + 1) n
    .ok (a :: rest)

/-- Reading elements that are all there is safe, and gives them. -/
theorem readMany_safe {m : List α} {i n : ℕ} (h : i + n ≤ m.length) :
    Safe (readMany m i n) (· = (m.drop i).take n) := by
  induction n generalizing i with
  | zero => exact safe_ok rfl
  | succ n ih =>
    unfold readMany
    have hi : i < m.length := by omega
    refine (readAt_safe hi).bind fun a ha => ?_
    refine (ih (by omega)).bind fun rest hrest => safe_ok ?_
    have ha : m[i] = a := Option.some.inj ((List.getElem?_eq_getElem hi).symm.trans ha)
    rw [hrest, List.drop_eq_getElem_cons hi, List.take_succ_cons, ha]

/-- Reading from the length on is an access outside. -/
theorem readAt_error {m : List α} {i : ℕ} (h : m.length ≤ i) : readAt m i = .error (.read i) := by
  unfold readAt
  rw [List.getElem?_eq_none h]

/-- Elements that are not all there are not read. -/
theorem readMany_error {m : List α} {i n : ℕ} (h : m.length < i + n) (hn : n ≠ 0) :
    ∃ fault, readMany m i n = .error fault := by
  induction n generalizing i with
  | zero => exact absurd rfl hn
  | succ n ih =>
    unfold readMany
    by_cases hi : i < m.length
    · obtain ⟨a, ha, -⟩ := readAt_safe hi
      obtain ⟨fault, hrest⟩ := ih (i := i + 1) (by omega) (by omega)
      rw [ha, ok_bind, hrest]
      exact ⟨fault, rfl⟩
    · rw [readAt_error (Nat.le_of_not_lt hi)]
      exact ⟨.read i, rfl⟩

/-- Writes an element of an array. -/
def storeAt (l : List α) (i : ℕ) (a : α) : Access (List α) :=
  if i < l.length then .ok (l.set i a) else .error (.write i)

/-- Storing below the length is safe, and replaces the element there. -/
theorem storeAt_safe {l : List α} {i : ℕ} (h : i < l.length) (a : α) :
    Safe (storeAt l i a) (· = l.set i a) := by
  refine ⟨l.set i a, ?_, rfl⟩
  unfold storeAt
  exact if_pos h

/-- Writes elements of an array from a place on. -/
def storeMany (l : List α) (i : ℕ) : List α → Access (List α)
  | [] => .ok l
  | a :: as => do
    let l ← storeAt l i a
    storeMany l (i + 1) as

/-- An array with these elements from a place on. -/
def overwrite (l : List α) (i : ℕ) (as : List α) : List α :=
  l.take i ++ as ++ l.drop (i + as.length)

/-- Overwriting with nothing changes nothing. -/
@[simp] theorem overwrite_nil (l : List α) (i : ℕ) : overwrite l i [] = l := by
  simp [overwrite]

/-- The first element is stored, then the others behind it. -/
theorem overwrite_cons {l : List α} {i : ℕ} (h : i < l.length) (a : α) (as : List α) :
    overwrite (l.set i a) (i + 1) as = overwrite l i (a :: as) := by
  have hset : l.set i a = (l.take i ++ [a]) ++ l.drop (i + 1) := by
    rw [List.set_eq_take_append_cons_drop, if_pos h, List.append_assoc, List.singleton_append]
  have hfront : (l.take i ++ [a]).length = i + 1 := by
    rw [List.length_append, List.length_take_of_le (Nat.le_of_lt h), List.length_singleton]
  have hend : i + (as.length + 1) = i + 1 + as.length := by omega
  unfold overwrite
  rw [hset, List.take_left' hfront, ← List.drop_drop, List.drop_left' hfront, List.drop_drop,
    List.length_cons, hend]
  simp only [List.append_assoc, List.cons_append, List.nil_append]

/-- Overwriting inside a list keeps its length. -/
theorem length_overwrite {l : List α} {i : ℕ} {as : List α} (h : i + as.length ≤ l.length) :
    (overwrite l i as).length = l.length := by
  simp only [overwrite, List.length_append, List.length_take, List.length_drop]
  omega

/-- What is written behind what has been written. -/
theorem overwrite_append {l : List α} {i : ℕ} {as : List α} (h : i + as.length ≤ l.length)
    (bs : List α) : overwrite (overwrite l i as) (i + as.length) bs = overwrite l i (as ++ bs) := by
  have hfront : (l.take i ++ as).length = i + as.length := by
    rw [List.length_append, List.length_take]
    omega
  have htake : (l.take i ++ as ++ l.drop (i + as.length)).take (i + as.length) = l.take i ++ as := by
    exact List.take_left' hfront
  have hdrop : (l.take i ++ as ++ l.drop (i + as.length)).drop (i + as.length + bs.length) =
      l.drop (i + as.length + bs.length) := by
    rw [← List.drop_drop, List.drop_left' hfront, List.drop_drop]
  unfold overwrite
  rw [htake, hdrop, List.length_append, ← Nat.add_assoc]
  simp only [List.append_assoc]

/-- Writing from the start on leaves the first elements as they were exactly when those written to
their places are the same. -/
theorem take_overwrite_zero_iff {l as : List α} (n : ℕ) (hn : n ≤ l.length) :
    (overwrite l 0 as).take n = l.take n ↔ as.take n <+: l := by
  have heq : overwrite l 0 as = as ++ l.drop as.length := by
    unfold overwrite
    rw [List.take_zero, List.nil_append, Nat.zero_add]
  rw [heq]
  constructor
  · intro h
    have hprefix : as <+: as ++ l.drop as.length := List.prefix_append as _
    have htake := hprefix.take n
    rw [h] at htake
    exact htake.trans (List.take_prefix n l)
  · intro h
    by_cases hlen : n ≤ as.length
    · have htake := List.prefix_iff_eq_take.1 h
      rw [List.length_take_of_le hlen] at htake
      rw [List.take_append_of_le_length hlen, htake]
    · rw [List.take_of_length_le (by omega)] at h
      obtain ⟨rest, rfl⟩ := h
      rw [List.drop_left]

/-- What is written before what has been written. -/
theorem overwrite_before {l : List α} {i : ℕ} {as bs : List α}
    (h : i + as.length + bs.length ≤ l.length) :
    overwrite (overwrite l (i + as.length) bs) i as = overwrite l i (as ++ bs) := by
  have hi : i ≤ (l.take (i + as.length)).length := by
    rw [List.length_take]
    omega
  have hfront : (l.take (i + as.length)).length = i + as.length := by
    rw [List.length_take]
    omega
  have htake : (l.take (i + as.length) ++ bs ++ l.drop (i + as.length + bs.length)).take i =
      l.take i := by
    rw [List.append_assoc, List.take_append_of_le_length hi, List.take_take,
      Nat.min_eq_left (Nat.le_add_right i as.length)]
  have hdrop : (l.take (i + as.length) ++ bs ++ l.drop (i + as.length + bs.length)).drop
      (i + as.length) = bs ++ l.drop (i + as.length + bs.length) := by
    rw [List.append_assoc]
    exact List.drop_left' hfront
  unfold overwrite
  rw [htake, hdrop, List.length_append, ← Nat.add_assoc]
  simp only [List.append_assoc]

/-- Storing elements that all go in is safe, and overwrites those that were there. -/
theorem storeMany_safe {l : List α} {i : ℕ} {as : List α} (h : i + as.length ≤ l.length) :
    Safe (storeMany l i as) (· = overwrite l i as) := by
  induction as generalizing l i with
  | nil => exact safe_ok (overwrite_nil l i).symm
  | cons a as ih =>
    rw [List.length_cons] at h
    have hi : i < l.length := by omega
    unfold storeMany
    refine (storeAt_safe hi a).bind fun l' hl' => ?_
    rw [hl', ← overwrite_cons hi]
    refine ih ?_
    rw [List.length_set]
    omega

/-- Writes the next element of a buffer. -/
def push (capacity : ℕ) (out : List α) (a : α) : Access (List α) :=
  if out.length < capacity then .ok (out ++ [a]) else .error (.write out.length)

/-- An element is added where there is room. -/
theorem push_safe {capacity : ℕ} {out : List α} (h : out.length < capacity) (a : α) :
    Safe (push capacity out a) (· = out ++ [a]) := by
  refine ⟨out ++ [a], ?_, rfl⟩
  unfold push
  exact if_pos h

/-- A computation under a condition, and the result without it. -/
def doWhen (p : Prop) [Decidable p] (x : Access α) (a : α) : Access α := if p then x else .ok a

/-- A step that may be left out is safe if it is where it is taken. -/
theorem doWhen_safe {p : Prop} [Decidable p] {x : Access α} {a : α} {post : α → Prop}
    (hx : p → Safe x post) (ha : ¬p → post a) : Safe (doWhen p x a) post := by
  unfold doWhen
  split
  · next hp => exact hx hp
  · next hp => exact safe_ok (ha hp)

/-- Writes the next element of a buffer under a condition. -/
def pushWhen (p : Prop) [Decidable p] (capacity : ℕ) (out : List α) (a : α) : Access (List α) :=
  if p then push capacity out a else .ok out

/-- An element that may be left out is added if there is room where it is not. -/
theorem pushWhen_safe {p : Prop} [Decidable p] {capacity : ℕ} {out : List α}
    (h : p → out.length < capacity) (a : α) :
    Safe (pushWhen p capacity out a) (· = if p then out ++ [a] else out) := by
  unfold pushWhen
  split
  · next hp => exact push_safe (h hp) a
  · exact safe_ok rfl

/-- Writes the next elements of a buffer. -/
def pushMany (capacity : ℕ) (out : List α) : List α → Access (List α)
  | [] => .ok out
  | a :: as => do
    let out ← push capacity out a
    pushMany capacity out as

/-- Elements are added where there is room for all. -/
theorem pushMany_safe {capacity : ℕ} {out as : List α} (h : out.length + as.length ≤ capacity) :
    Safe (pushMany capacity out as) (· = out ++ as) := by
  induction as generalizing out with
  | nil => exact safe_ok (List.append_nil out).symm
  | cons a as ih =>
    rw [List.length_cons] at h
    unfold pushMany
    refine (push_safe (by omega) a).bind fun out' hout' => ?_
    rw [hout']
    refine (ih ?_).mono fun _ hr => ?_
    · rw [List.length_append, List.length_singleton]
      omega
    · rw [hr, List.append_assoc, List.singleton_append]

/-! ## Loops -/

variable {σ ι : Type} {body : ℕ → σ → Access (Bool × σ)} {Inv : σ → Prop}

/-- A loop over `n` indices from `i` on, which the body stops by `true`. -/
def loopFrom (body : ℕ → σ → Access (Bool × σ)) : ℕ → ℕ → σ → Access σ
  | _, 0, s => .ok s
  | i, n + 1, s => do
    let (stop, s) ← body i s
    if stop then .ok s else loopFrom body (i + 1) n s

/-- A loop over the indices below `n`. -/
def loop (n : ℕ) (s : σ) (body : ℕ → σ → Access (Bool × σ)) : Access σ := loopFrom body 0 n s

/-- A loop whose body makes no access outside an array and keeps an invariant. -/
theorem loopFrom_safe {i n : ℕ} {s : σ}
    (hbody : ∀ j s, j < i + n → Inv s → Safe (body j s) fun r => Inv r.2) (hs : Inv s) :
    Safe (loopFrom body i n s) Inv := by
  induction n generalizing i s with
  | zero => exact safe_ok hs
  | succ n ih =>
    unfold loopFrom
    refine (hbody i s (by omega) hs).bind ?_
    rintro ⟨stop, s'⟩ hs'
    simp only
    split
    · exact safe_ok hs'
    · refine ih ?_ hs'
      intro j t hj ht
      exact hbody j t (by omega) ht

/-- A loop whose rounds are safe and keep an invariant is safe and keeps it. -/
theorem loop_safe {n : ℕ} {s : σ} (hs : Inv s)
    (hbody : ∀ j s, j < n → Inv s → Safe (body j s) fun r => Inv r.2) :
    Safe (loop n s body) Inv := by
  refine loopFrom_safe ?_ hs
  intro j t hj ht
  exact hbody j t (by omega) ht

/-- A loop that its body does not stop makes the access of every index. -/
theorem not_safe_loopFrom {i n k : ℕ} (hk : i ≤ k ∧ k < i + n)
    (hgo : ∀ j s r, body j s = .ok r → r.1 = false) (hfault : ∀ s post, ¬Safe (body k s) post)
    (s : σ) (post : σ → Prop) : ¬Safe (loopFrom body i n s) post := by
  induction n generalizing i s with
  | zero => omega
  | succ n ih =>
    rintro ⟨t, ht, hpost⟩
    unfold loopFrom at ht
    cases hb : body i s with
    | error e =>
      rw [hb] at ht
      exact nomatch ht
    | ok r =>
      have hr : r.1 = false := hgo i s r hb
      have hne : i ≠ k := by
        rintro rfl
        exact hfault s (fun _ => True) ⟨r, hb, trivial⟩
      rw [hb, ok_bind] at ht
      simp only [hr, Bool.false_eq_true, if_false] at ht
      exact ih (by omega) r.2 ⟨t, ht, hpost⟩

/-- A run of steps, each of which keeps an invariant. -/
theorem foldlM_safe {step : σ → ι → Access σ} {is : List ι} {s : σ}
    (hstep : ∀ s, ∀ i ∈ is, Inv s → Safe (step s i) Inv) (hs : Inv s) :
    Safe (is.foldlM step s) Inv := by
  induction is generalizing s with
  | nil => exact safe_pure hs
  | cons i is ih =>
    rw [List.foldlM_cons]
    refine (hstep s i List.mem_cons_self hs).bind fun t ht => ih ?_ ht
    intro t j hj
    exact hstep t j (List.mem_cons_of_mem i hj)

end IUserApps.Checked
