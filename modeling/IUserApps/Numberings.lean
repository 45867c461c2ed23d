import Mathlib.Data.List.Induction
import Mathlib.Data.List.Shortlex
import Mathlib.Data.Nat.Notation
import Mathlib.Tactic.Common

/-!
# Breadth-first numbering

Nodes are numbered as a worklist comes to them: the successors of each are looked up in turn, by a
comparison `same` that need not be an equality, and those that are not found are put at its end
(`number`). The edges between the places are kept in the order of the look-ups.

Which of two places comes first can be said without the worklist: a walk is a list of the entries
that are followed from the start, and the walks are ordered by their lengths and then by their
first different entries. A place comes before another if and only if every walk to that one is
behind some walk to it (`precedes_iff`).
-/

namespace IUserApps.Numberings

/-- Nodes in their places, and the edges between the places in the order in which they were found. -/
@[ext]
structure Numbered (α : Type*) where
  nodes : List α
  edges : List (ℕ × ℕ)

variable {α : Type*} (same : α → α → Bool) (next : α → List α)

/-- Looks a successor of the node at `i` up, and gives it a place if it has none. -/
def link (i : ℕ) (g : Numbered α) (a : α) : Numbered α :=
  match g.nodes.findIdx? (same · a) with
  | some j => ⟨g.nodes, g.edges ++ [(i, j)]⟩
  | none => ⟨g.nodes ++ [a], g.edges ++ [(i, g.nodes.length)]⟩

/-- Goes through the nodes from a place on. -/
def number : ℕ → ℕ → Numbered α → Numbered α
  | 0, _, g => g
  | fuel + 1, i, g =>
    match g.nodes[i]? with
    | none => g
    | some a => number fuel (i + 1) ((next a).foldl (link same i) g)

/-- The numbering from a start. -/
def numbering (start : α) (fuel : ℕ) : Numbered α := number same next fuel 0 ⟨[start], []⟩

/-! ## Walks -/

/-- Where the edges of a place lead, in their order. -/
def succs (edges : List (ℕ × ℕ)) (i : ℕ) : List ℕ :=
  (edges.filter fun e => e.1 = i).map Prod.snd

/-- Where the entries of a walk lead from the first place. -/
def walk (edges : List (ℕ × ℕ)) (entries : List ℕ) : Option ℕ :=
  entries.foldlM (fun i k => (succs edges i)[k]?) 0

/-- Every walk to `i` is behind one to `j`: longer, or as long and behind it at the first entry in
which they differ. -/
def Precedes (edges : List (ℕ × ℕ)) (j i : ℕ) : Prop :=
  ∀ p, walk edges p = some i → ∃ q, walk edges q = some j ∧ q.Shortlex (· < ·) p

/-- The edges of a numbering of `n` nodes whose nodes below `i` have been gone through. -/
structure BreadthFirst (n i : ℕ) (edges : List (ℕ × ℕ)) : Prop where
  sorted : edges.Pairwise fun e f => e.1 ≤ f.1
  source : ∀ e ∈ edges, e.1 ≤ i
  /-- Every place but the first was come to from one before it. -/
  found : ∀ j, 0 < j → j < n → ∃ e ∈ edges, e.2 = j ∧ e.1 < j
  /-- When a place is come to, those before it have been. -/
  filled : ∀ before e after, edges = before ++ e :: after →
    ∀ j, 0 < j → j < e.2 → ∃ f ∈ before, f.2 = j

variable {n i j : ℕ} {edges : List (ℕ × ℕ)}

/-- The first place alone, before anything has been found. -/
theorem BreadthFirst.start : BreadthFirst 1 0 [] :=
  ⟨.nil, fun _ h => absurd h List.not_mem_nil, fun j hj hlt => by omega,
    fun _ _ _ h => by simp at h⟩

/-- A place that has been gone through is done with. -/
theorem BreadthFirst.succ (h : BreadthFirst n i edges) : BreadthFirst n (i + 1) edges :=
  ⟨h.sorted, fun e he => Nat.le_succ_of_le (h.source e he), h.found, h.filled⟩

/-- An edge to a place that is taken, or to the first free one. -/
theorem BreadthFirst.append (h : BreadthFirst n i edges) (hi : i < n) {m : ℕ}
    (hj : j < n ∧ m = n ∨ j = n ∧ m = n + 1) : BreadthFirst m i (edges ++ [(i, j)]) := by
  refine ⟨?_, ?_, fun k hk hlt => ?_, fun before e after hsplit k hk hlt => ?_⟩
  · refine List.pairwise_append.2 ⟨h.sorted, List.pairwise_singleton _ _, fun e he f hf => ?_⟩
    rw [List.mem_singleton.1 hf]
    exact h.source e he
  · refine List.forall_mem_append.2 ⟨h.source, List.forall_mem_singleton.2 le_rfl⟩
  · by_cases hnew : k < n
    · obtain ⟨e, he, hplace⟩ := h.found k hk hnew
      exact ⟨e, List.mem_append_left _ he, hplace⟩
    · exact ⟨(i, j), List.mem_append_right _ List.mem_cons_self, by show j = k; omega,
        by show i < k; omega⟩
  · -- The edge is the new one, or one of those before it.
    rcases List.eq_nil_or_concat after with rfl | ⟨after', last, rfl⟩
    · obtain ⟨rfl, he⟩ := List.append_inj' hsplit rfl
      obtain rfl := (List.cons.inj he).1
      have hkn : k < n := by
        have hlt' : k < j := hlt
        omega
      obtain ⟨f, hf, hplace, -⟩ := h.found k hk hkn
      exact ⟨f, hf, hplace⟩
    · have hold : edges = before ++ e :: after' := by
        have hassoc : before ++ e :: (after' ++ [last]) = (before ++ e :: after') ++ [last] := by
          simp
        rw [List.concat_eq_append, hassoc] at hsplit
        exact (List.append_inj' hsplit rfl).1
      exact h.filled before e after' hold k hk hlt

/-! ## The order of the places -/

/-- An element that passes a filter, with what stands before it. -/
theorem split_of_filter {β : Type*} {p : β → Bool} {l : List β} {k : ℕ} {b : β}
    (h : (l.filter p)[k]? = some b) :
    ∃ before after, l = before ++ b :: after ∧ (before.filter p).length = k := by
  induction l generalizing k with
  | nil => simp at h
  | cons a l ih =>
    by_cases ha : p a = true
    · rw [List.filter_cons_of_pos ha] at h
      cases k with
      | zero =>
        obtain rfl : a = b := by simpa using h
        exact ⟨[], l, rfl, rfl⟩
      | succ k =>
        obtain ⟨before, after, rfl, hlength⟩ := ih h
        exact ⟨a :: before, after, rfl, by rw [List.filter_cons_of_pos ha, List.length_cons, hlength]⟩
    · rw [List.filter_cons_of_neg ha] at h
      obtain ⟨before, after, rfl, hlength⟩ := ih h
      exact ⟨a :: before, after, rfl, by rw [List.filter_cons_of_neg ha, hlength]⟩

/-- The successors of a node, in the order of its edges. -/
theorem getElem_succs {k : ℕ} : (succs edges i)[k]? = some j ↔
    (edges.filter fun e => e.1 = i)[k]? = some (i, j) := by
  unfold succs
  rw [List.getElem?_map, Option.map_eq_some_iff]
  constructor
  · rintro ⟨e, he, rfl⟩
    have hsource := (List.mem_filter.1 (List.mem_of_getElem? he)).2
    obtain rfl : e.1 = i := by simpa using hsource
    exact he
  · exact fun he => ⟨_, he, rfl⟩

/-- The end of an edge is a successor of its start. -/
theorem mem_succs {e : ℕ × ℕ} (he : e ∈ edges) : ∃ k : ℕ, (succs edges e.1)[k]? = some e.2 := by
  have hmem : e ∈ edges.filter fun f => f.1 = e.1 := List.mem_filter.2 ⟨he, by simp⟩
  obtain ⟨k, hk⟩ := List.mem_iff_getElem?.1 hmem
  exact ⟨k, getElem_succs.2 hk⟩

/-- A walk takes one step more. -/
theorem walk_append (p : List ℕ) (k : ℕ) :
    walk edges (p ++ [k]) = (walk edges p).bind fun i => (succs edges i)[k]? := by
  unfold walk
  rw [List.foldlM_append]
  simp [bind]

/-- Where an edge leads, an earlier place was come to from the same one by an earlier entry, or from
one before. -/
theorem BreadthFirst.earlier {m k l : ℕ} (h : BreadthFirst n m edges)
    (hedge : (succs edges k)[l]? = some i) (hj : 0 < j) (hlt : j < i) :
    ∃ k' l' : ℕ, (succs edges k')[l']? = some j ∧ (k' < k ∨ k' = k ∧ l' < l) := by
  obtain ⟨before, after, rfl, hlength⟩ := split_of_filter (getElem_succs.1 hedge)
  obtain ⟨f, hf, rfl⟩ := h.filled before (k, i) after rfl j hj hlt
  have hle : f.1 ≤ k := (List.pairwise_append.1 h.sorted).2.2 f hf (k, i) List.mem_cons_self
  rcases Nat.lt_or_eq_of_le hle with hbefore | rfl
  · obtain ⟨l', hl'⟩ := mem_succs (List.mem_append_left ((k, i) :: after) hf)
    exact ⟨f.1, l', hl', .inl hbefore⟩
  · -- Of the same place's edges it is among those that stand before.
    have hmem : f ∈ before.filter fun e => e.1 = f.1 := List.mem_filter.2 ⟨hf, by simp⟩
    obtain ⟨l', hl'⟩ := List.mem_iff_getElem?.1 hmem
    have hshort : l' < l := hlength ▸ (List.getElem?_eq_some_iff.1 hl').1
    refine ⟨f.1, l', getElem_succs.2 ?_, .inr ⟨rfl, hshort⟩⟩
    rw [List.filter_append, List.getElem?_append_left (by omega)]
    exact hl'

/-- Walks that are as long keep their order with more entries behind them. -/
theorem shortlex_append {p q : List ℕ} (h : q.Shortlex (· < ·) p) (k l : ℕ) :
    (q ++ [k]).Shortlex (· < ·) (p ++ [l]) := by
  rcases List.shortlex_def.1 h with hlt | ⟨heq, hlex⟩
  · exact .of_length_lt (by simpa using hlt)
  · refine .of_lex (by simpa using heq) ?_
    clear h
    induction hlex with
    | nil => simp at heq
    | rel hr => exact .rel hr
    | cons _ ih => exact .cons (ih (by simpa using heq))

/-- To a place before there is a walk before. -/
theorem BreadthFirst.walk_before {m : ℕ} (h : BreadthFirst n m edges) {p : List ℕ}
    (hp : walk edges p = some i) (hlt : j < i) :
    ∃ q, walk edges q = some j ∧ q.Shortlex (· < ·) p := by
  -- By induction on the walk, from its end.
  induction p using List.reverseRecOn generalizing i j with
  | nil =>
    obtain rfl : 0 = i := Option.some.inj hp
    omega
  | append_singleton p l ih =>
    rw [walk_append, Option.bind_eq_some_iff] at hp
    obtain ⟨k, hk, hedge⟩ := hp
    rcases Nat.eq_zero_or_pos j with rfl | hj
    · exact ⟨[], rfl, .of_length_lt (by simp)⟩
    obtain ⟨k', l', hedge', hbefore | ⟨rfl, hl⟩⟩ := h.earlier hedge hj hlt
    · obtain ⟨q, hq, hless⟩ := ih hk hbefore
      exact ⟨q ++ [l'], by rw [walk_append, hq]; exact hedge', shortlex_append hless l' l⟩
    · refine ⟨p ++ [l'], by rw [walk_append, hk]; exact hedge', .append_left ?_ p⟩
      exact (List.shortlex_singleton_iff l' l).2 hl

/-- Every place can be walked to. -/
theorem BreadthFirst.exists_walk {m : ℕ} (h : BreadthFirst n m edges) (hi : i < n) :
    ∃ p, walk edges p = some i := by
  induction i using Nat.strongRecOn with
  | ind i ih =>
    rcases Nat.eq_zero_or_pos i with rfl | hpos
    · exact ⟨[], rfl⟩
    · obtain ⟨e, he, rfl, hlt⟩ := h.found i hpos hi
      obtain ⟨p, hp⟩ := ih e.1 hlt (hlt.trans hi)
      obtain ⟨k, hk⟩ := mem_succs he
      exact ⟨p ++ [k], by rw [walk_append, hp]; exact hk⟩

/-- A place comes before another if and only if every walk to that one is behind one to it. -/
theorem BreadthFirst.precedes_iff {m : ℕ} (h : BreadthFirst n m edges) (hi : i < n) :
    Precedes edges j i ↔ j < i := by
  constructor
  · intro hprecedes
    by_contra hnot
    -- Of the walks to either place none would be the first.
    obtain ⟨p, hp⟩ := h.exists_walk hi
    obtain ⟨p, hp | hp, hleast⟩ := (List.Shortlex.wf Nat.lt_wfRel.wf).has_min
      {p | walk edges p = some i ∨ walk edges p = some j} ⟨p, .inl hp⟩
    · obtain ⟨q, hq, hless⟩ := hprecedes p hp
      exact hleast q (.inr hq) hless
    · rcases Nat.lt_or_eq_of_le (Nat.le_of_not_lt hnot) with hlt | rfl
      · obtain ⟨q, hq, hless⟩ := h.walk_before hp hlt
        exact hleast q (.inl hq) hless
      · obtain ⟨q, hq, hless⟩ := hprecedes p hp
        exact hleast q (.inl hq) hless
  · exact fun hlt p hp => h.walk_before hp hlt

/-! ## The numbering -/

/-- Linking one more name keeps the numbering breadth first. -/
theorem link_breadthFirst {g : Numbered α} (h : BreadthFirst g.nodes.length i g.edges)
    (hi : i < g.nodes.length) (a : α) :
    BreadthFirst (link same i g a).nodes.length i (link same i g a).edges ∧
      i < (link same i g a).nodes.length := by
  unfold link
  split
  · next j hfind =>
    have hj : j < g.nodes.length := (List.findIdx?_eq_some_iff_getElem.1 hfind).1
    exact ⟨h.append hi (.inl ⟨hj, rfl⟩), hi⟩
  · refine ⟨h.append hi (.inr ⟨rfl, ?_⟩), ?_⟩
    · rw [List.length_append, List.length_singleton]
    · rw [List.length_append]
      omega

/-- Linking a node's names keeps the numbering breadth first. -/
theorem links_breadthFirst {g : Numbered α} (h : BreadthFirst g.nodes.length i g.edges)
    (hi : i < g.nodes.length) (as : List α) :
    BreadthFirst (as.foldl (link same i) g).nodes.length i (as.foldl (link same i) g).edges := by
  induction as generalizing g with
  | nil => exact h
  | cons a as ih =>
    obtain ⟨hlink, hlt⟩ := link_breadthFirst same h hi a
    exact ih hlink hlt

/-- A numbering goes on breadth first. -/
theorem number_breadthFirst (fuel : ℕ) {g : Numbered α}
    (h : BreadthFirst g.nodes.length i g.edges) :
    ∃ m, BreadthFirst (number same next fuel i g).nodes.length m
      (number same next fuel i g).edges := by
  induction fuel generalizing i g with
  | zero => exact ⟨i, h⟩
  | succ fuel ih =>
    unfold number
    split
    · exact ⟨i, h⟩
    · next a ha =>
      exact ih (links_breadthFirst same h (List.getElem?_eq_some_iff.1 ha).1 (next a)).succ

/-- In a numbering, a place comes before another if and only if every walk to that one is behind one
to it. -/
theorem precedes_iff {start : α} {fuel : ℕ}
    (hi : i < (numbering same next start fuel).nodes.length) :
    Precedes (numbering same next start fuel).edges j i ↔ j < i := by
  obtain ⟨m, h⟩ := number_breadthFirst same next fuel (g := ⟨[start], []⟩) .start
  exact h.precedes_iff hi

end IUserApps.Numberings
