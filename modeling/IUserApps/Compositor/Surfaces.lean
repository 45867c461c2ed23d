import IUserApps.Compositor.Windows

/-!
# The surface cache

The surfaces that programs have committed (`surface.cpp`): an entry for each, with what the commit
said, the part that changed and a count of its commits. A commit renews the surface's entry, or
takes a free one, or the first when none is free; a list of windows drops the entries that no
window has shown for `kSurfaceForgetLists` lists.

The cache is indexed below `kMaxSurfaceCache`. `commits`, `latest` and an entry's `born` are no
part of the source: they number the commits, so that it can be said which one a texture holds.
-/

namespace IUserApps.Compositor

/-- The surfaces held at most. -/
def kMaxSurfaceCache : ℕ := 64
/-- The lists a window may be missing from before its surface is forgotten. -/
def kSurfaceForgetLists : ℕ := 8

/-- What the kernel says of a committed surface. -/
structure SurfaceInfo where
  id : ℕ
  width : ℕ
  height : ℕ
  /-- Bytes a row. -/
  pitch : ℕ
  /-- Where its pixels are, or zero. -/
  address : ℕ
  dirtyX : ℕ
  dirtyY : ℕ
  dirtyWidth : ℕ
  dirtyHeight : ℕ
deriving DecidableEq, Repr

/-- An entry of the cache: the surface it holds, and what has changed of it. -/
structure SurfaceCacheEntry where
  valid : Bool
  id : ℕ
  info : SurfaceInfo
  dirty : Bool
  dirtyX : ℕ
  dirtyY : ℕ
  dirtyWidth : ℕ
  dirtyHeight : ℕ
  /-- Commits seen since the surface appeared; there are fewer than `2^64`. -/
  generation : ℕ
  /-- Window lists in a row that did not show it. -/
  unshownLists : ℕ
  /-- The number of the commit that made the entry. -/
  born : ℕ
deriving DecidableEq, Repr

/-- A cleared entry. -/
def SurfaceCacheEntry.cleared : SurfaceCacheEntry :=
  ⟨false, 0, ⟨0, 0, 0, 0, 0, 0, 0, 0, 0⟩, false, 0, 0, 0, 0, 0, 0, 0⟩

/-- The surfaces that are held. -/
structure SurfaceCache where
  entries : ℕ → SurfaceCacheEntry
  /-- How many commits there were. -/
  commits : ℕ
  /-- The number of a surface's latest commit. -/
  latest : ℕ → ℕ

/-- The cache before the first commit. -/
def SurfaceCache.empty : SurfaceCache := ⟨fun _ => .cleared, 0, fun _ => 0⟩

/-- The place of the surface's entry. -/
def findSurfaceCache (cache : SurfaceCache) (surfaceId : ℕ) : Option ℕ :=
  if surfaceId = 0 then none
  else (List.range kMaxSurfaceCache).find? fun i =>
    (cache.entries i).valid && decide ((cache.entries i).id = surfaceId)

/-- The first place without an entry. -/
def freeEntry (cache : SurfaceCache) : Option ℕ :=
  (List.range kMaxSurfaceCache).find? fun i => !(cache.entries i).valid

/-- The place that a commit of the surface takes. -/
def entryFor (cache : SurfaceCache) (surfaceId : ℕ) : ℕ :=
  ((findSurfaceCache cache surfaceId).or (freeEntry cache)).getD 0

/-- The place holds an entry of the surface. -/
def SurfaceCacheEntry.isOf (entry : SurfaceCacheEntry) (surfaceId : ℕ) : Bool :=
  entry.valid && decide (entry.id = surfaceId)

/-- The entry after a commit: what it counts goes on when it was the surface's. -/
def SurfaceCacheEntry.commit [Ui] (entry : SurfaceCacheEntry) (info : SurfaceInfo) (number : ℕ) :
    SurfaceCacheEntry :=
  let oldDirty : Rect :=
    if entry.dirty then
      ⟨int32 entry.dirtyX, int32 entry.dirtyY, int32 entry.dirtyWidth, int32 entry.dirtyHeight⟩
    else ⟨0, 0, 0, 0⟩
  let newDirty : Rect :=
    ⟨int32 info.dirtyX, int32 info.dirtyY, int32 info.dirtyWidth, int32 info.dirtyHeight⟩
  let merged := oldDirty.unite newDirty
  { valid := true
    id := info.id
    info := info
    dirty := !merged.empty
    dirtyX := u32 merged.x
    dirtyY := u32 merged.y
    dirtyWidth := u32 merged.width
    dirtyHeight := u32 merged.height
    generation := (if entry.isOf info.id then entry.generation else 0) + 1
    unshownLists := 0
    born := if entry.isOf info.id then entry.born else number }

/-- Takes in a commit. -/
def rememberSurface [Ui] (cache : SurfaceCache) (info : SurfaceInfo) : SurfaceCache :=
  let i := entryFor cache info.id
  let number := cache.commits + 1
  { entries := Function.update cache.entries i ((cache.entries i).commit info number)
    commits := number
    latest := Function.update cache.latest info.id number }

/-- An entry after a list of windows. -/
def SurfaceCacheEntry.listed (entry : SurfaceCacheEntry) (windows : List WindowInfo) :
    SurfaceCacheEntry :=
  if !entry.valid then entry
  else if windows.any (fun window => window.surfaceID = entry.id) then
    { entry with unshownLists := 0 }
  else if kSurfaceForgetLists < entry.unshownLists + 1 then .cleared
  else { entry with unshownLists := entry.unshownLists + 1 }

/-- Drops the surfaces that no window shows any more. -/
def forgetUnshownSurfaces (cache : SurfaceCache) (windows : List WindowInfo) : SurfaceCache :=
  { cache with entries := fun i =>
      if i < kMaxSurfaceCache then (cache.entries i).listed windows else cache.entries i }

/-! ## The cache's invariant -/

/-- Every entry in use is of a commit that was made, and a surface has one entry at most. -/
structure SurfaceCache.Sound (cache : SurfaceCache) : Prop where
  outside : ∀ i, kMaxSurfaceCache ≤ i → (cache.entries i).valid = false
  latest_le : ∀ id, cache.latest id ≤ cache.commits
  born_le : ∀ i, (cache.entries i).valid = true → (cache.entries i).born ≤ cache.commits
  unique : ∀ i j id, id ≠ 0 → (cache.entries i).isOf id = true →
    (cache.entries j).isOf id = true → i = j

/-- An entry is a window's if it is in use under the window's id. -/
theorem isOf_iff {entry : SurfaceCacheEntry} {id : ℕ} :
    entry.isOf id = true ↔ entry.valid = true ∧ entry.id = id := by
  simp [SurfaceCacheEntry.isOf]

/-- The entry found is of the surface and in the cache. -/
theorem findSurfaceCache_some {cache : SurfaceCache} {id i : ℕ}
    (h : findSurfaceCache cache id = some i) :
    id ≠ 0 ∧ i < kMaxSurfaceCache ∧ (cache.entries i).isOf id = true := by
  unfold findSurfaceCache at h
  split at h
  · simp at h
  · next hid =>
    have hmem := List.mem_of_find?_eq_some h
    have hp := List.find?_some h
    exact ⟨hid, List.mem_range.1 hmem, hp⟩

/-- A surface whose entry is not found has none. -/
theorem findSurfaceCache_none {cache : SurfaceCache} {id i : ℕ} (hid : id ≠ 0)
    (h : findSurfaceCache cache id = none) (hi : i < kMaxSurfaceCache) :
    (cache.entries i).isOf id = false := by
  unfold findSurfaceCache at h
  rw [if_neg hid, List.find?_eq_none] at h
  have := h i (List.mem_range.2 hi)
  simpa [SurfaceCacheEntry.isOf] using this

/-- An entry of a surface is in the cache. -/
theorem lt_of_isOf {cache : SurfaceCache} (hc : cache.Sound) {id i : ℕ}
    (h : (cache.entries i).isOf id = true) : i < kMaxSurfaceCache := by
  by_contra hge
  have hv := hc.outside i (Nat.le_of_not_lt hge)
  rw [(isOf_iff.1 h).1] at hv
  exact absurd hv (by decide)

/-- In a sound cache the entry of a surface is the one that is found. -/
theorem findSurfaceCache_of_isOf {cache : SurfaceCache} (hc : cache.Sound) {id i : ℕ}
    (hid : id ≠ 0) (h : (cache.entries i).isOf id = true) :
    findSurfaceCache cache id = some i := by
  have hi := lt_of_isOf hc h
  cases hf : findSurfaceCache cache id with
  | none =>
    rw [findSurfaceCache_none hid hf hi] at h
    exact absurd h (by decide)
  | some j =>
    obtain ⟨-, -, hj⟩ := findSurfaceCache_some hf
    rw [hc.unique i j id hid h hj]

/-- A commit takes a place of the cache. -/
theorem entryFor_lt (cache : SurfaceCache) (id : ℕ) : entryFor cache id < kMaxSurfaceCache := by
  unfold entryFor
  cases hf : findSurfaceCache cache id with
  | some i => exact (findSurfaceCache_some hf).2.1
  | none =>
    cases hfree : freeEntry cache with
    | some i =>
      have hmem := List.mem_of_find?_eq_some hfree
      exact List.mem_range.1 hmem
    | none => exact Nat.zero_lt_of_lt (by decide : 0 < kMaxSurfaceCache)

/-- The entry of a surface, when it has one, is the place its commit takes. -/
theorem entryFor_of_isOf {cache : SurfaceCache} (hc : cache.Sound) {id i : ℕ} (hid : id ≠ 0)
    (h : (cache.entries i).isOf id = true) : entryFor cache id = i := by
  unfold entryFor
  rw [findSurfaceCache_of_isOf hc hid h]
  rfl

/-- The entries after a commit. -/
theorem rememberSurface_entries [Ui] (cache : SurfaceCache) (info : SurfaceInfo) (i : ℕ) :
    (rememberSurface cache info).entries i =
      if i = entryFor cache info.id then
        (cache.entries (entryFor cache info.id)).commit info (cache.commits + 1)
      else cache.entries i := Function.update_apply ..

/-- The latest commits after a commit. -/
theorem rememberSurface_latest [Ui] (cache : SurfaceCache) (info : SurfaceInfo) (id : ℕ) :
    (rememberSurface cache info).latest id =
      if id = info.id then cache.commits + 1 else cache.latest id := Function.update_apply ..

/-- A commit keeps the cache sound. -/
theorem rememberSurface_sound [Ui] {cache : SurfaceCache} (hc : cache.Sound) (info : SurfaceInfo) :
    (rememberSurface cache info).Sound := by
  set p := entryFor cache info.id with hp
  have hplt : p < kMaxSurfaceCache := entryFor_lt cache info.id
  have hentries : ∀ i, (rememberSurface cache info).entries i =
      if i = p then (cache.entries p).commit info (cache.commits + 1) else cache.entries i :=
    rememberSurface_entries cache info
  have hcommits : (rememberSurface cache info).commits = cache.commits + 1 := rfl
  refine ⟨?_, ?_, ?_, ?_⟩
  · intro i hi
    rw [hentries i, if_neg (by omega)]
    exact hc.outside i hi
  · intro id
    have := hc.latest_le id
    rw [rememberSurface_latest, hcommits]
    split <;> omega
  · intro i hv
    rw [hentries i] at hv ⊢
    rw [hcommits]
    by_cases hip : i = p
    · rw [if_pos hip]
      show (if (cache.entries p).isOf info.id then (cache.entries p).born
        else cache.commits + 1) ≤ cache.commits + 1
      split
      · next hof =>
        have := hc.born_le p (isOf_iff.1 hof).1
        omega
      · omega
    · rw [if_neg hip] at hv ⊢
      have := hc.born_le i hv
      omega
  · intro i j id hid hi hj
    -- An entry of the surface at another place would be the one the commit takes.
    have hother : ∀ k, k ≠ p → ((rememberSurface cache info).entries k).isOf id = true →
        (cache.entries k).isOf id = true ∧ id ≠ info.id := by
      intro k hk hof
      rw [hentries k, if_neg hk] at hof
      refine ⟨hof, ?_⟩
      rintro rfl
      exact hk (entryFor_of_isOf hc hid hof).symm
    have hself : ((rememberSurface cache info).entries p).isOf id = true → id = info.id := by
      intro hof
      rw [hentries p, if_pos rfl] at hof
      exact (isOf_iff.1 hof).2.symm
    by_cases hip : i = p
    · by_cases hjp : j = p
      · rw [hip, hjp]
      · subst hip
        exact absurd (hself hi) (hother j hjp hj).2
    · by_cases hjp : j = p
      · subst hjp
        exact absurd (hself hj) (hother i hip hi).2
      · exact hc.unique i j id hid (hother i hip hi).1 (hother j hjp hj).1

/-- A list of windows keeps or clears each entry. -/
theorem listed_cases (entry : SurfaceCacheEntry) (windows : List WindowInfo) :
    entry.listed windows = .cleared ∨
      ∃ n, entry.listed windows = { entry with unshownLists := n } := by
  unfold SurfaceCacheEntry.listed
  split
  · exact Or.inr ⟨_, rfl⟩
  · split
    · exact Or.inr ⟨_, rfl⟩
    · split
      · exact Or.inl rfl
      · exact Or.inr ⟨_, rfl⟩

/-- What a list of windows leaves of an entry in use is what it was, but for the lists counted. -/
theorem forgetUnshownSurfaces_entry {cache : SurfaceCache} {windows : List WindowInfo} {i : ℕ}
    (hv : ((forgetUnshownSurfaces cache windows).entries i).valid = true) :
    ∃ n, (forgetUnshownSurfaces cache windows).entries i =
      { cache.entries i with unshownLists := n } := by
  have hdef : (forgetUnshownSurfaces cache windows).entries i =
      if i < kMaxSurfaceCache then (cache.entries i).listed windows else cache.entries i := rfl
  rw [hdef] at hv ⊢
  split at hv
  · next hi =>
    rw [if_pos hi]
    rcases listed_cases (cache.entries i) windows with h | h
    · rw [h] at hv
      exact absurd hv (by decide)
    · exact h
  · next hi =>
    rw [if_neg hi]
    exact ⟨_, rfl⟩

/-- A list of windows keeps the cache sound. -/
theorem forgetUnshownSurfaces_sound {cache : SurfaceCache} (hc : cache.Sound)
    (windows : List WindowInfo) : (forgetUnshownSurfaces cache windows).Sound := by
  have hof : ∀ i id, ((forgetUnshownSurfaces cache windows).entries i).isOf id = true →
      (cache.entries i).isOf id = true := by
    intro i id h
    obtain ⟨n, hn⟩ := forgetUnshownSurfaces_entry (isOf_iff.1 h).1
    rw [hn] at h
    exact h
  refine ⟨?_, hc.latest_le, ?_, ?_⟩
  · intro i hi
    show (if i < kMaxSurfaceCache then _ else cache.entries i).valid = false
    rw [if_neg (by omega)]
    exact hc.outside i hi
  · intro i hv
    obtain ⟨n, hn⟩ := forgetUnshownSurfaces_entry hv
    rw [hn] at hv ⊢
    exact hc.born_le i hv
  · intro i j id hid hi hj
    exact hc.unique i j id hid (hof i id hi) (hof j id hj)

/-- The cache is sound before the first commit. -/
theorem empty_sound : SurfaceCache.empty.Sound := by
  refine ⟨fun _ _ => rfl, fun _ => Nat.le_refl 0, ?_, ?_⟩
  · intro i hv
    exact absurd hv Bool.false_ne_true
  · intro i j id _ hi _
    exact absurd (isOf_iff.1 hi).1 Bool.false_ne_true

end IUserApps.Compositor
