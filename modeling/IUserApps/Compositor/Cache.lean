import IUserApps.Compositor.Surfaces
import IUserApps.Runs

/-!
# The surface cache over a run

What the compositor remembers of surfaces over any run of commits and window lists.
`cache_keeps` says that a surface has one entry at most, which holds what its latest commit said; that
the entry of a surface which is shown stays where it is; and that a surface keeps its entry for
`kSurfaceForgetLists` lists after a commit.

There is one exception: when every entry is in use, the commit of a surface that has none takes the
first entry, whose surface loses it (`Evicts`). `CacheRun` has beside the cache what the runs are
measured by: the latest list, what each surface's latest commit said, the lists since then, and whether
the surface has lost its entry.
-/

namespace IUserApps.Compositor

open Runs

/-- What happens to the cache. A committed surface has an id. -/
inductive CacheEvent
  | commit (info : SurfaceInfo) (id_ne_zero : info.id ≠ 0)
  | list (windows : List WindowInfo)

/-- A run so far: the cache, and of each surface what it was last committed with and what has
happened since. -/
structure CacheRun where
  cache : SurfaceCache
  /-- The latest list of windows. -/
  windows : List WindowInfo
  /-- What the latest commit of a surface said. -/
  committed : ℕ → Option SurfaceInfo
  /-- The lists since then. -/
  lists : ℕ → ℕ
  /-- The surface has lost its entry to another one's commit since then. -/
  evicted : ℕ → Bool

/-- No surface is held and nothing has been committed. -/
def CacheRun.start : CacheRun := ⟨.empty, [], fun _ => none, fun _ => 0, fun _ => false⟩

/-- A commit of the surface finds no entry of its own and none free. -/
def Evicts (cache : SurfaceCache) (id : ℕ) : Prop :=
  findSurfaceCache cache id = none ∧ freeEntry cache = none

instance (cache : SurfaceCache) (id : ℕ) : Decidable (Evicts cache id) :=
  inferInstanceAs (Decidable (_ ∧ _))

/-- A window of the list shows the surface. -/
def Shows (windows : List WindowInfo) (id : ℕ) : Prop :=
  windows.any (fun window => window.surfaceID = id) = true

instance (windows : List WindowInfo) (id : ℕ) : Decidable (Shows windows id) :=
  inferInstanceAs (Decidable (_ = true))

namespace CacheRun

/-- The surfaces that have lost their entry after a commit. -/
def evictedAfter (r : CacheRun) (info : SurfaceInfo) (id : ℕ) : Bool :=
  if id = info.id then false
  else if Evicts r.cache info.id ∧ (r.cache.entries 0).id = id then true
  else r.evicted id

/-- One event: a commit or a new list of windows. -/
def step [Ui] (r : CacheRun) : CacheEvent → CacheRun
  | .commit info _ =>
    { r with
      cache := rememberSurface r.cache info
      committed := Function.update r.committed info.id (some info)
      lists := Function.update r.lists info.id 0
      evicted := r.evictedAfter info }
  | .list windows =>
    { r with
      cache := forgetUnshownSurfaces r.cache windows
      windows := windows
      lists := fun id => r.lists id + 1 }

/-! ## What is claimed -/

/-- A surface has one entry at most. -/
def Unique (r : CacheRun) : Prop :=
  ∀ i j id, (r.cache.entries i).isOf id = true → (r.cache.entries j).isOf id = true → i = j

/-- An entry holds what the surface's latest commit said. -/
def HoldsLatest (r : CacheRun) : Prop :=
  ∀ i id, (r.cache.entries i).isOf id = true → r.committed id = some (r.cache.entries i).info

/-- A surface that was committed no more than `kSurfaceForgetLists` lists ago, and that has not lost
its entry, has it. -/
def KeepsCommitted (r : CacheRun) : Prop :=
  ∀ id, (r.committed id).isSome → r.lists id ≤ kSurfaceForgetLists → r.evicted id = false →
    ∃ i < kMaxSurfaceCache, (r.cache.entries i).isOf id = true

/-- The entry of a surface that the latest list shows stays as it is when another surface is
committed, and for the next list that shows it. -/
def KeepsShown [Ui] (r : CacheRun) (e : CacheEvent) : Prop :=
  ∀ i id, Shows r.windows id → (r.cache.entries i).isOf id = true →
    match e with
    | .commit info _ => id ≠ info.id →
      (r.step e).cache.entries i = r.cache.entries i ∨ (Evicts r.cache info.id ∧ i = 0)
    | .list windows => Shows windows id →
      (r.step e).cache.entries i = { r.cache.entries i with unshownLists := 0 }

end CacheRun

/-! ## The steps -/

/-- The place that a commit takes holds its surface, or is free, or is the first one of a cache that is
full. -/
theorem entryFor_cases (cache : SurfaceCache) (id : ℕ) :
    (cache.entries (entryFor cache id)).isOf id = true ∨
      (cache.entries (entryFor cache id)).valid = false ∨
      (Evicts cache id ∧ entryFor cache id = 0) := by
  unfold entryFor
  cases hfind : findSurfaceCache cache id with
  | some i => exact Or.inl (findSurfaceCache_some hfind).2.2
  | none =>
    cases hfree : freeEntry cache with
    | some i =>
      have hinvalid := List.find?_some hfree
      exact Or.inr (Or.inl (Bool.not_eq_true' _ ▸ hinvalid))
    | none => exact Or.inr (Or.inr ⟨⟨hfind, hfree⟩, rfl⟩)

/-- The entry of another surface stays, or is the first of a cache that is full. -/
theorem rememberSurface_other [Ui] {cache : SurfaceCache} {info : SurfaceInfo} {i id : ℕ}
    (hne : id ≠ info.id) (h : (cache.entries i).isOf id = true) :
    (rememberSurface cache info).entries i = cache.entries i ∨ (Evicts cache info.id ∧ i = 0) := by
  by_cases hi : i = entryFor cache info.id
  · right
    rw [hi] at h
    rcases entryFor_cases cache info.id with hof | hinvalid | ⟨hevicts, hzero⟩
    · exact absurd ((isOf_iff.1 h).2.symm.trans (isOf_iff.1 hof).2) hne
    · rw [(isOf_iff.1 h).1] at hinvalid
      exact absurd hinvalid Bool.noConfusion
    · exact ⟨hevicts, hi.trans hzero⟩
  · left
    exact Function.update_of_ne hi _ _

/-- An entry of another surface after a commit was there before. -/
theorem of_rememberSurface [Ui] {cache : SurfaceCache} {info : SurfaceInfo} {i id : ℕ}
    (hne : id ≠ info.id) (h : ((rememberSurface cache info).entries i).isOf id = true) :
    (rememberSurface cache info).entries i = cache.entries i := by
  by_cases hi : i = entryFor cache info.id
  · have hself : (rememberSurface cache info).entries i =
        (cache.entries (entryFor cache info.id)).commit info (cache.commits + 1) := by
      rw [hi]
      exact Function.update_self _ _ _
    rw [hself] at h
    exact absurd (isOf_iff.1 h).2.symm hne
  · exact Function.update_of_ne hi _ _

/-- The surface that is committed has the place that its commit takes. -/
theorem rememberSurface_self [Ui] (cache : SurfaceCache) (info : SurfaceInfo) :
    (rememberSurface cache info).entries (entryFor cache info.id) =
      (cache.entries (entryFor cache info.id)).commit info (cache.commits + 1) :=
  Function.update_self _ _ _

/-- An entry in the cache after a list. -/
theorem forgetUnshownSurfaces_lt {cache : SurfaceCache} {windows : List WindowInfo} {i : ℕ}
    (hi : i < kMaxSurfaceCache) :
    (forgetUnshownSurfaces cache windows).entries i = (cache.entries i).listed windows := if_pos hi

/-- The entry of a surface that is shown is as it was, but for the lists counted. -/
theorem listed_shown {entry : SurfaceCacheEntry} {windows : List WindowInfo} {id : ℕ}
    (h : entry.isOf id = true) (hshown : Shows windows id) :
    entry.listed windows = { entry with unshownLists := 0 } := by
  obtain ⟨hvalid, rfl⟩ := isOf_iff.1 h
  unfold SurfaceCacheEntry.listed
  rw [hvalid, if_neg (by decide)]
  exact if_pos hshown

/-- An entry that has not been unshown for `kSurfaceForgetLists` lists is left, with one list more at
most. -/
theorem listed_recent {entry : SurfaceCacheEntry} {id : ℕ} (h : entry.isOf id = true)
    (windows : List WindowInfo) (hrecent : entry.unshownLists < kSurfaceForgetLists) :
    ∃ n ≤ entry.unshownLists + 1, entry.listed windows = { entry with unshownLists := n } := by
  have hvalid := (isOf_iff.1 h).1
  unfold SurfaceCacheEntry.listed
  rw [hvalid, if_neg (by decide)]
  split
  · exact ⟨0, Nat.zero_le _, rfl⟩
  · rw [if_neg (by omega)]
    exact ⟨entry.unshownLists + 1, Nat.le_refl _, rfl⟩

namespace CacheRun

/-- The invariant of the runs: the entry of a surface has been unshown for no more lists than there
were since its commit. -/
structure Sound (r : CacheRun) : Prop where
  cache : r.cache.Sound
  id_ne_zero : ∀ i, (r.cache.entries i).valid = true → (r.cache.entries i).id ≠ 0
  latest : r.HoldsLatest
  kept : ∀ id, (r.committed id).isSome → r.lists id ≤ kSurfaceForgetLists → r.evicted id = false →
    ∃ i, (r.cache.entries i).isOf id = true ∧ (r.cache.entries i).unshownLists ≤ r.lists id

/-- The empty cache holds what was committed: nothing. -/
theorem start_sound : start.Sound where
  cache := empty_sound
  id_ne_zero := fun _ h => absurd h Bool.false_ne_true
  latest := fun _ _ h => absurd (isOf_iff.1 h).1 Bool.false_ne_true
  kept := fun _ h => absurd h Bool.false_ne_true

section
variable [Ui] {r : CacheRun}

/-- A commit keeps the invariant. -/
theorem Sound.commit (h : r.Sound) {info : SurfaceInfo} (hid : info.id ≠ 0) :
    (r.step (.commit info hid)).Sound := by
  have hself := rememberSurface_self r.cache info
  have hof : ((rememberSurface r.cache info).entries (entryFor r.cache info.id)).isOf info.id
      = true := by
    rw [hself]
    exact isOf_iff.2 ⟨rfl, rfl⟩
  have hsound : (rememberSurface r.cache info).Sound := rememberSurface_sound h.cache info
  refine ⟨hsound, ?_, ?_, ?_⟩
  · intro i hvalid
    by_cases hne : ((rememberSurface r.cache info).entries i).id = info.id
    · exact fun hzero => hid (hne.symm.trans hzero)
    · have hsame := of_rememberSurface hne (isOf_iff.2 ⟨hvalid, rfl⟩)
      show ((rememberSurface r.cache info).entries i).id ≠ 0
      have hvalid' : ((rememberSurface r.cache info).entries i).valid = true := hvalid
      rw [hsame] at hvalid' ⊢
      exact h.id_ne_zero i hvalid'
  · intro i id hi
    have hi : ((rememberSurface r.cache info).entries i).isOf id = true := hi
    show Function.update r.committed info.id (some info) id =
      some ((rememberSurface r.cache info).entries i).info
    by_cases hne : id = info.id
    · -- The surface's only entry is the one just written.
      subst hne
      have hplace := hsound.unique _ _ _ hid hi hof
      rw [Function.update_self, hplace, hself]
      rfl
    · have hsame := of_rememberSurface hne hi
      rw [hsame] at hi
      rw [Function.update_of_ne hne, hsame]
      exact h.latest i id hi
  · intro id hcommitted hlists hevicted
    by_cases hne : id = info.id
    · subst hne
      refine ⟨_, hof, ?_⟩
      show ((rememberSurface r.cache info).entries _).unshownLists ≤ _
      rw [hself]
      exact Nat.zero_le _
    · have hcommitted : (Function.update r.committed info.id (some info) id).isSome := hcommitted
      have hlists : Function.update r.lists info.id 0 id ≤ kSurfaceForgetLists := hlists
      have hevicted : r.evictedAfter info id = false := hevicted
      unfold evictedAfter at hevicted
      rw [Function.update_of_ne hne] at hcommitted hlists
      rw [if_neg hne] at hevicted
      split at hevicted
      · cases hevicted
      · next hnot =>
        obtain ⟨i, hi, hunshown⟩ := h.kept id hcommitted hlists hevicted
        refine ⟨i, ?_⟩
        show ((rememberSurface r.cache info).entries i).isOf id = true ∧
          ((rememberSurface r.cache info).entries i).unshownLists ≤
            Function.update r.lists info.id 0 id
        rw [Function.update_of_ne hne]
        -- The commit has left the entry, or has evicted it.
        rcases rememberSurface_other hne hi with hsame | ⟨hevicts, rfl⟩
        · rw [hsame]
          exact ⟨hi, hunshown⟩
        · exact absurd ⟨hevicts, (isOf_iff.1 hi).2⟩ hnot

/-- A list of windows keeps the invariant. -/
theorem Sound.list (h : r.Sound) (windows : List WindowInfo) : (r.step (.list windows)).Sound := by
  refine ⟨forgetUnshownSurfaces_sound h.cache windows, ?_, ?_, ?_⟩
  · intro i hvalid
    obtain ⟨n, hn⟩ := forgetUnshownSurfaces_entry hvalid
    have hvalid : ((forgetUnshownSurfaces r.cache windows).entries i).valid = true := hvalid
    show ((forgetUnshownSurfaces r.cache windows).entries i).id ≠ 0
    rw [hn] at hvalid ⊢
    exact h.id_ne_zero i hvalid
  · intro i id hi
    obtain ⟨n, hn⟩ := forgetUnshownSurfaces_entry (isOf_iff.1 hi).1
    have hi : ((forgetUnshownSurfaces r.cache windows).entries i).isOf id = true := hi
    show r.committed id = some ((forgetUnshownSurfaces r.cache windows).entries i).info
    rw [hn] at hi ⊢
    exact h.latest i id hi
  · intro id hcommitted hlists hevicted
    have hlists : r.lists id + 1 ≤ kSurfaceForgetLists := hlists
    obtain ⟨i, hi, hunshown⟩ := h.kept id hcommitted (by omega) hevicted
    obtain ⟨n, hle, hn⟩ := listed_recent hi windows (by omega)
    refine ⟨i, ?_⟩
    show ((forgetUnshownSurfaces r.cache windows).entries i).isOf id = true ∧
      ((forgetUnshownSurfaces r.cache windows).entries i).unshownLists ≤ r.lists id + 1
    rw [forgetUnshownSurfaces_lt (lt_of_isOf h.cache hi), hn]
    exact ⟨hi, by show n ≤ _; omega⟩

/-- Every step keeps the invariant. -/
theorem step_sound (h : r.Sound) (e : CacheEvent) : (r.step e).Sound := by
  cases e with
  | commit info hid => exact h.commit hid
  | list windows => exact h.list windows

/-- Every step keeps the entries of the surfaces that are shown. -/
theorem Sound.keepsShown (h : r.Sound) (e : CacheEvent) : r.KeepsShown e := by
  intro i id hshown hi
  cases e with
  | commit info hid => exact fun hne => rememberSurface_other hne hi
  | list windows =>
    intro hlisted
    show (forgetUnshownSurfaces r.cache windows).entries i = _
    rw [forgetUnshownSurfaces_lt (lt_of_isOf h.cache hi)]
    exact listed_shown hi hlisted

/-- After any run the invariant holds. -/
theorem run_sound (es : List CacheEvent) : (es.foldl step start).Sound := by
  have hrun : Along step (fun _ _ => True) start es := along_iff.2 fun _ _ _ _ => trivial
  exact foldl_of_invariant Sound (fun _ e h _ => step_sound h e) start_sound hrun

end

end CacheRun

/-- Over any run of commits and window lists a surface has one entry at most, which holds what its
latest commit said; a surface keeps its entry for `kSurfaceForgetLists` lists after a commit, unless
it has lost it; and the entry of a surface that is shown stays, unless it is the first and the commit
of a surface without an entry finds the cache full. -/
theorem cache_keeps [Ui] (es : List CacheEvent) :
    (es.foldl CacheRun.step .start).Unique ∧ (es.foldl CacheRun.step .start).HoldsLatest ∧
      (es.foldl CacheRun.step .start).KeepsCommitted ∧
      Along CacheRun.step CacheRun.KeepsShown .start es := by
  have hsound := CacheRun.run_sound es
  refine ⟨?_, hsound.latest, ?_, ?_⟩
  · intro i j id hi hj
    obtain ⟨hvalid, hid⟩ := isOf_iff.1 hi
    have hne : id ≠ 0 := by
      rw [← hid]
      exact hsound.id_ne_zero i hvalid
    exact hsound.cache.unique i j id hne hi hj
  · intro id hcommitted hlists hevicted
    obtain ⟨i, hi, -⟩ := hsound.kept id hcommitted hlists hevicted
    exact ⟨i, lt_of_isOf hsound.cache hi, hi⟩
  · have hrun : Along CacheRun.step (fun _ _ => True) CacheRun.start es :=
      along_iff.2 fun _ _ _ _ => trivial
    exact hrun.of_invariant CacheRun.Sound (fun _ e h _ => CacheRun.step_sound h e)
      (fun _ e h _ => h.keepsShown e) CacheRun.start_sound

/-- The commit of a surface in shared memory. -/
def commitOf (n : ℕ) : CacheEvent := .commit ⟨n + 1, 4, 4, 16, 4096, 0, 0, 4, 4⟩ (Nat.succ_ne_zero n)

/-- A window that shows surface 1. -/
def showsOne : WindowInfo where
  id := 1
  state := ⟨true, false, false, false⟩
  x := 100
  y := 100
  width := 4
  height := 4
  surfaceID := 1
  title := "Viewer"
  id_ne_zero := Nat.one_ne_zero

/-- Commits of 64 surfaces, of which a window shows the first. -/
def fullRun : List CacheEvent := (List.range kMaxSurfaceCache).map commitOf ++ [.list [showsOne]]

/-- The commit of one more surface takes the entry of the one that is shown. -/
theorem shown_evicted :
    Shows ((fullRun.foldl (@CacheRun.step plainUi) .start).windows) 1 ∧
      findSurfaceCache (fullRun.foldl (@CacheRun.step plainUi) .start).cache 1 = some 0 ∧
      findSurfaceCache
        ((fullRun ++ [commitOf kMaxSurfaceCache]).foldl (@CacheRun.step plainUi) .start).cache 1 =
        none := by
  decide +kernel

end IUserApps.Compositor
