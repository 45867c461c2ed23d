import IUserApps.Compositor.Cache
import IUserApps.Compositor.Present

/-!
# The changed part of a surface

What a commit says has changed is merged into the surface's entry and stays there until a pass takes
it (`surface.cpp`): `consumeSurfaceDirtyRect` gives the part of the screen where the visible windows
show a change, and both it and `clearSurfaceDirtyFlags` forget every change of every surface.

`Pumped` is what the entries hold of the commits since then, and `consumeSurfaceDirtyRect_covers`
that nothing of it is missing on the screen. The merged rectangle is computed with `int`, so each
commit's has to end within one (`EdgesFit`); positions on the screen are integers.
-/

namespace IUserApps.Compositor

open Runs

namespace SurfaceInfo

/-- The pixel is one of the surface's. -/
def Has (info : SurfaceInfo) (px py : ℕ) : Prop := px < info.width ∧ py < info.height

/-- The pixel lies in what the commit says has changed. -/
def Dirties (info : SurfaceInfo) (px py : ℕ) : Prop :=
  info.dirtyX ≤ px ∧ px < info.dirtyX + info.dirtyWidth ∧
    info.dirtyY ≤ py ∧ py < info.dirtyY + info.dirtyHeight

/-- What has changed lies in the surface. -/
def DirtyInside (info : SurfaceInfo) : Prop :=
  info.dirtyX + info.dirtyWidth ≤ info.width ∧ info.dirtyY + info.dirtyHeight ≤ info.height

/-- An `int` holds where what has changed ends. -/
def EdgesFit (info : SurfaceInfo) : Prop :=
  info.dirtyX + info.dirtyWidth < 2^31 ∧ info.dirtyY + info.dirtyHeight < 2^31

instance (info : SurfaceInfo) (px py : ℕ) : Decidable (info.Has px py) :=
  inferInstanceAs (Decidable (_ ∧ _))

instance (info : SurfaceInfo) (px py : ℕ) : Decidable (info.Dirties px py) :=
  inferInstanceAs (Decidable (_ ∧ _))

instance (info : SurfaceInfo) : Decidable info.DirtyInside := inferInstanceAs (Decidable (_ ∧ _))

instance (info : SurfaceInfo) : Decidable info.EdgesFit := inferInstanceAs (Decidable (_ ∧ _))

/-- The rectangle of what has changed, as a commit merges it. -/
def dirtyRect (info : SurfaceInfo) : Rect :=
  ⟨int32 info.dirtyX, int32 info.dirtyY, int32 info.dirtyWidth, int32 info.dirtyHeight⟩

end SurfaceInfo

namespace SurfaceCacheEntry

/-- The pixel lies in what has changed since the last pass that took it. -/
def Dirties (entry : SurfaceCacheEntry) (px py : ℕ) : Prop :=
  entry.dirty = true ∧ entry.dirtyX ≤ px ∧ px < entry.dirtyX + entry.dirtyWidth ∧
    entry.dirtyY ≤ py ∧ py < entry.dirtyY + entry.dirtyHeight

/-- An `int` holds where what has changed ends. -/
def EdgesFit (entry : SurfaceCacheEntry) : Prop :=
  entry.dirty = true →
    entry.dirtyX + entry.dirtyWidth < 2^31 ∧ entry.dirtyY + entry.dirtyHeight < 2^31

/-- The rectangle of what has changed, as a commit merges it. -/
def dirtyRect (entry : SurfaceCacheEntry) : Rect :=
  if entry.dirty then
    ⟨int32 entry.dirtyX, int32 entry.dirtyY, int32 entry.dirtyWidth, int32 entry.dirtyHeight⟩
  else ⟨0, 0, 0, 0⟩

/-- An entry whose change is forgotten. -/
def undirtied (entry : SurfaceCacheEntry) : SurfaceCacheEntry :=
  { entry with dirty := false, dirtyX := 0, dirtyY := 0, dirtyWidth := 0, dirtyHeight := 0 }

end SurfaceCacheEntry

/-- Forgets what has changed of every surface. -/
def clearSurfaceDirtyFlags (cache : SurfaceCache) : SurfaceCache :=
  { cache with entries := fun i =>
      if i < kMaxSurfaceCache then (cache.entries i).undirtied else cache.entries i }

section Consume

variable [Ui]

/-- `surfaceRight` and `surfaceBottom`: where a side of the surface ends in the window. -/
def surfaceEnd (side : ℕ) (windowSide : ℤ) : ℕ :=
  if side < u32 windowSide then side else u32 windowSide

/-- `clippedRight` and `clippedBottom`: where what has changed ends in the window. -/
def clippedEnd (start size surfaceEnd : ℕ) : ℕ :=
  let dirtyEnd := u32 (start + size)
  if dirtyEnd < surfaceEnd then dirtyEnd else surfaceEnd

/-- What has changed of an entry's surface, on the screen, united with what is dirty. -/
def uniteEntryDirty (dirty : Rect) (window : WindowInfo) (entry : SurfaceCacheEntry) : Rect :=
  let surfaceRight := surfaceEnd entry.info.width window.width
  let surfaceBottom := surfaceEnd entry.info.height window.height
  if entry.dirtyWidth = 0 ∨ entry.dirtyHeight = 0 ∨ surfaceRight ≤ entry.dirtyX ∨
      surfaceBottom ≤ entry.dirtyY then dirty
  else
    let clippedRight := clippedEnd entry.dirtyX entry.dirtyWidth surfaceRight
    let clippedBottom := clippedEnd entry.dirtyY entry.dirtyHeight surfaceBottom
    dirty.unite
      ⟨window.x + kBorder + int32 entry.dirtyX, window.y + kTitleBarHeight + int32 entry.dirtyY,
        int32 (u32 ((clippedRight : ℤ) - entry.dirtyX)),
        int32 (u32 ((clippedBottom : ℤ) - entry.dirtyY))⟩

/-- A pass of the loop of `consumeSurfaceDirtyRect` over the windows. -/
def uniteWindowDirty (cache : SurfaceCache) (dirty : Rect) (window : WindowInfo) : Rect :=
  if !isWindowVisible window then dirty
  else
    match (findSurfaceCache cache window.surfaceID).map cache.entries with
    | none => dirty
    | some entry => if !entry.dirty then dirty else uniteEntryDirty dirty window entry

/-- Where the windows show a change, which is forgotten then. -/
def consumeSurfaceDirtyRect (windows : List WindowInfo) (cache : SurfaceCache)
    (width height : ℕ) : Rect × SurfaceCache :=
  (clampRect (windows.foldl (uniteWindowDirty cache) ⟨0, 0, 0, 0⟩) width height,
    clearSurfaceDirtyFlags cache)

end Consume

/-! ## Forgetting what has changed -/

/-- Nothing is marked as changed. -/
def SurfaceCache.Undirtied (cache : SurfaceCache) : Prop :=
  ∀ i < kMaxSurfaceCache, (cache.entries i).dirty = false

/-- After `clearSurfaceDirtyFlags` nothing is marked as changed. -/
theorem clearSurfaceDirtyFlags_undirtied (cache : SurfaceCache) :
    (clearSurfaceDirtyFlags cache).Undirtied := by
  intro i hi
  show (if i < kMaxSurfaceCache then (cache.entries i).undirtied else cache.entries i).dirty = _
  rw [if_pos hi]
  rfl

/-- What is forgotten is no part of what makes a cache sound. -/
theorem clearSurfaceDirtyFlags_sound {cache : SurfaceCache} (h : cache.Sound) :
    (clearSurfaceDirtyFlags cache).Sound := by
  have hsame : ∀ i, ((clearSurfaceDirtyFlags cache).entries i).valid = (cache.entries i).valid ∧
      ((clearSurfaceDirtyFlags cache).entries i).born = (cache.entries i).born ∧
      ∀ id, ((clearSurfaceDirtyFlags cache).entries i).isOf id = (cache.entries i).isOf id := by
    intro i
    have hentry : (clearSurfaceDirtyFlags cache).entries i =
        if i < kMaxSurfaceCache then (cache.entries i).undirtied else cache.entries i := rfl
    rw [hentry]
    split
    · exact ⟨rfl, rfl, fun _ => rfl⟩
    · exact ⟨rfl, rfl, fun _ => rfl⟩
  refine ⟨?_, h.latest_le, ?_, ?_⟩
  · intro i hi
    rw [(hsame i).1]
    exact h.outside i hi
  · intro i hi
    rw [(hsame i).1] at hi
    rw [(hsame i).2.1]
    exact h.born_le i hi
  · intro i j id hid hi hj
    rw [(hsame i).2.2] at hi
    rw [(hsame j).2.2] at hj
    exact h.unique i j id hid hi hj

/-- Any number of commits keep a cache sound. -/
theorem foldl_rememberSurface_sound [Ui] {cache : SurfaceCache} (h : cache.Sound)
    (batch : List SurfaceInfo) : (batch.foldl rememberSurface cache).Sound := by
  induction batch generalizing cache with
  | nil => exact h
  | cons info batch ih => exact ih (rememberSurface_sound h info)

/-! ## What a commit marks -/

section Rects

variable [Ui] [LawfulRects]

/-- The rectangle is empty, or between the origin and the end of an `int`. -/
def Rect.Within (r : Rect) : Prop :=
  r.empty = true ∨ 0 ≤ r.x ∧ 0 ≤ r.y ∧ r.x + r.width < 2^31 ∧ r.y + r.height < 2^31

/-- What unites two rectangles stays within their bounds. -/
theorem unite_within {r s : Rect} (hr : r.Within) (hs : s.Within) : (r.unite s).Within := by
  cases her : r.empty with
  | true =>
    rw [LawfulRects.unite_of_empty r s her]
    exact hs
  | false =>
    cases hes : s.empty with
    | true =>
      rw [LawfulRects.unite_empty r s her hes]
      exact hr
    | false =>
      have hr := hr.resolve_left (by rw [her]; exact Bool.false_ne_true)
      have hs := hs.resolve_left (by rw [hes]; exact Bool.false_ne_true)
      right
      rw [LawfulRects.unite_eq r s her hes]
      simp only
      omega

omit [Ui] [LawfulRects] in
/-- A rectangle of natural numbers that ends within an `int`. -/
theorem int32_rect {x y width height : ℕ} (hx : x + width < 2^31) (hy : y + height < 2^31) :
    (⟨int32 x, int32 y, int32 width, int32 height⟩ : Rect) = ⟨x, y, width, height⟩ := by
  rw [int32_of_fits (z := x) ⟨by omega, by omega⟩, int32_of_fits (z := y) ⟨by omega, by omega⟩,
    int32_of_fits (z := width) ⟨by omega, by omega⟩,
    int32_of_fits (z := height) ⟨by omega, by omega⟩]

omit [LawfulRects] in
/-- A rectangle of natural numbers is within bounds when its ends are. -/
theorem within_natCast {x y width height : ℕ} (hx : x + width < 2^31) (hy : y + height < 2^31) :
    (⟨x, y, width, height⟩ : Rect).Within := by
  right
  simp only
  omega

omit [Ui] [LawfulRects] in
/-- The pixels of a rectangle of natural numbers. -/
theorem mem_natCast {x y width height px py : ℕ} :
    (⟨x, y, width, height⟩ : Rect).Mem px py ↔
      x ≤ px ∧ px < x + width ∧ y ≤ py ∧ py < y + height := by
  unfold Rect.Mem
  simp only
  omega

/-- An entry marks what it marked and what the commit says has changed. -/
theorem commit_dirties {entry : SurfaceCacheEntry} (he : entry.EdgesFit) {info : SurfaceInfo}
    (hi : info.EdgesFit) (number : ℕ) :
    (entry.commit info number).EdgesFit ∧
      ∀ px py, entry.Dirties px py ∨ info.Dirties px py →
        (entry.commit info number).Dirties px py := by
  set merged := entry.dirtyRect.unite info.dirtyRect with hmerged
  have hdirty : (entry.commit info number).dirty = !merged.empty := rfl
  have hnew : info.dirtyRect = ⟨info.dirtyX, info.dirtyY, info.dirtyWidth, info.dirtyHeight⟩ :=
    int32_rect hi.1 hi.2
  have hold : entry.dirty = true → entry.dirtyRect =
      ⟨entry.dirtyX, entry.dirtyY, entry.dirtyWidth, entry.dirtyHeight⟩ := by
    intro hd
    unfold SurfaceCacheEntry.dirtyRect
    rw [if_pos hd]
    exact int32_rect (he hd).1 (he hd).2
  have hwithin : merged.Within := by
    refine unite_within ?_ ?_
    · cases hd : entry.dirty with
      | true =>
        rw [hold hd]
        exact within_natCast (he hd).1 (he hd).2
      | false =>
        left
        unfold SurfaceCacheEntry.dirtyRect
        rw [hd, if_neg Bool.false_ne_true, LawfulRects.empty_iff]
        exact Or.inl (Int.le_refl 0)
    · rw [hnew]
      exact within_natCast hi.1 hi.2
  -- A merged rectangle with a pixel is kept as it is, by the conversions there and back.
  have hfields : merged.empty = false →
      (u32 merged.x : ℤ) = merged.x ∧ (u32 merged.y : ℤ) = merged.y ∧
        (u32 merged.width : ℤ) = merged.width ∧ (u32 merged.height : ℤ) = merged.height ∧
        merged.x + merged.width < 2^31 ∧ merged.y + merged.height < 2^31 := by
    intro hne
    obtain ⟨hx, hy, hr, hb⟩ := hwithin.resolve_left (by rw [hne]; exact Bool.false_ne_true)
    have hpos : ¬(merged.width ≤ 0 ∨ merged.height ≤ 0) := by
      rw [← LawfulRects.empty_iff, hne]
      exact Bool.false_ne_true
    refine ⟨u32_of_lt hx ?_, u32_of_lt hy ?_, u32_of_lt ?_ ?_, u32_of_lt ?_ ?_, hr, hb⟩ <;> omega
  constructor
  · intro hd
    rw [hdirty, Bool.not_eq_true'] at hd
    obtain ⟨hx, hy, hw, hh, hr, hb⟩ := hfields hd
    show u32 merged.x + u32 merged.width < 2^31 ∧ u32 merged.y + u32 merged.height < 2^31
    omega
  · intro px py hp
    have hmem : merged.Mem px py := by
      refine mem_unite ?_
      rcases hp with ⟨hd, hp⟩ | hp
      · left
        rw [hold hd]
        exact mem_natCast.2 hp
      · right
        rw [hnew]
        exact mem_natCast.2 hp
    have hne := empty_of_mem hmem
    obtain ⟨hx, hy, hw, hh, -, -⟩ := hfields hne
    obtain ⟨h1, h2, h3, h4⟩ := hmem
    refine ⟨by rw [hdirty, hne]; rfl, ?_⟩
    show u32 merged.x ≤ px ∧ px < u32 merged.x + u32 merged.width ∧
      u32 merged.y ≤ py ∧ py < u32 merged.y + u32 merged.height
    omega

/-! ## What a pass takes -/

/-- An entry only adds to what is dirty. -/
theorem uniteEntryDirty_keeps {dirty : Rect} (window : WindowInfo) (entry : SurfaceCacheEntry)
    {x y : ℤ} (h : dirty.Mem x y) : (uniteEntryDirty dirty window entry).Mem x y := by
  unfold uniteEntryDirty
  simp only
  split
  · exact h
  · exact mem_unite (Or.inl h)

/-- A window only adds to what is dirty. -/
theorem uniteWindowDirty_keeps {cache : SurfaceCache} {dirty : Rect} (window : WindowInfo)
    {x y : ℤ} (h : dirty.Mem x y) : (uniteWindowDirty cache dirty window).Mem x y := by
  unfold uniteWindowDirty
  split
  · exact h
  · split
    · exact h
    · split
      · exact h
      · exact uniteEntryDirty_keeps window _ h

omit [Ui] [LawfulRects] in
/-- A pixel of a window and of its surface that lies in what has changed, along one side: what is
left of the change after clipping reaches past it. -/
theorem lt_clippedEnd {start size side p : ℕ} {windowSide : ℤ} (hfit : start + size < 2^31)
    (hwindow : windowSide < 2^31) (h0 : start ≤ p) (h1 : p < start + size) (hside : p < side)
    (hp : (p : ℤ) < windowSide) :
    ¬(size = 0 ∨ surfaceEnd side windowSide ≤ start) ∧
      (p : ℤ) - start <
        int32 (u32 ((clippedEnd start size (surfaceEnd side windowSide) : ℤ) - start)) := by
  have hdirty : (u32 (start + size) : ℤ) = start + size := u32_of_lt (by omega) (by omega)
  have hside' : (u32 windowSide : ℤ) = windowSide := u32_of_lt (by omega) (by omega)
  have hend : p < surfaceEnd side windowSide ∧ surfaceEnd side windowSide < 2^31 := by
    unfold surfaceEnd
    split <;> omega
  generalize surfaceEnd side windowSide = surfaceEnd at hend
  have hclipped : p < clippedEnd start size surfaceEnd ∧
      clippedEnd start size surfaceEnd < 2^31 := by
    unfold clippedEnd
    simp only
    split <;> omega
  generalize clippedEnd start size surfaceEnd = clippedEnd at hclipped
  have hword : (u32 ((clippedEnd : ℤ) - start) : ℤ) = clippedEnd - start :=
    u32_of_lt (by omega) (by omega)
  refine ⟨by omega, ?_⟩
  rw [hword, int32_of_fits ⟨by omega, by omega⟩]
  omega

/-- An entry adds the pixels of a window that show a change of its surface. -/
theorem uniteEntryDirty_covers (dirty : Rect) {window : WindowInfo} (hw : window.width < 2^31)
    (hh : window.height < 2^31) {entry : SurfaceCacheEntry} (hfit : entry.EdgesFit) {px py : ℕ}
    (hd : entry.Dirties px py) (hhas : entry.info.Has px py) (hpx : (px : ℤ) < window.width)
    (hpy : (py : ℤ) < window.height) :
    (uniteEntryDirty dirty window entry).Mem (window.x + kBorder + px)
      (window.y + kTitleBarHeight + py) := by
  obtain ⟨hdirty, hx0, hx1, hy0, hy1⟩ := hd
  obtain ⟨hright, hbottom⟩ := hfit hdirty
  have hleft : int32 entry.dirtyX = entry.dirtyX := int32_of_fits ⟨by omega, by omega⟩
  have htop : int32 entry.dirtyY = entry.dirtyY := int32_of_fits ⟨by omega, by omega⟩
  obtain ⟨hsx, hcx⟩ := lt_clippedEnd hright hw hx0 hx1 hhas.1 hpx
  obtain ⟨hsy, hcy⟩ := lt_clippedEnd hbottom hh hy0 hy1 hhas.2 hpy
  unfold uniteEntryDirty
  simp only
  rw [if_neg, hleft, htop]
  · refine mem_unite (Or.inr ?_)
    generalize int32 (u32 _) = clippedWidth at hcx ⊢
    generalize int32 (u32 _) = clippedHeight at hcy ⊢
    unfold Rect.Mem
    simp only
    omega
  · rintro (h | h | h | h)
    · exact hsx (Or.inl h)
    · exact hsy (Or.inl h)
    · exact hsx (Or.inr h)
    · exact hsy (Or.inr h)

/-- A visible window adds the pixels that show a change of its surface. -/
theorem uniteWindowDirty_covers {cache : SurfaceCache} (dirty : Rect) {window : WindowInfo}
    (hvisible : isWindowVisible window = true) (hw : window.width < 2^31)
    (hh : window.height < 2^31) {i : ℕ}
    (hfind : findSurfaceCache cache window.surfaceID = some i)
    (hfit : (cache.entries i).EdgesFit) {px py : ℕ} (hd : (cache.entries i).Dirties px py)
    (hhas : (cache.entries i).info.Has px py) (hpx : (px : ℤ) < window.width)
    (hpy : (py : ℤ) < window.height) :
    (uniteWindowDirty cache dirty window).Mem (window.x + kBorder + px)
      (window.y + kTitleBarHeight + py) := by
  have hdef : uniteWindowDirty cache dirty window =
      uniteEntryDirty dirty window (cache.entries i) := by
    unfold uniteWindowDirty
    rw [hvisible, hfind, Option.map_some]
    simp only
    rw [hd.1]
    rfl
  rw [hdef]
  exact uniteEntryDirty_covers dirty hw hh hfit hd hhas hpx hpy

/-- The loop over the windows keeps what is dirty before it. -/
theorem foldl_uniteWindowDirty_keeps {cache : SurfaceCache} (windows : List WindowInfo)
    {dirty : Rect} {x y : ℤ} (h : dirty.Mem x y) :
    (windows.foldl (uniteWindowDirty cache) dirty).Mem x y := by
  induction windows generalizing dirty with
  | nil => exact h
  | cons window windows ih => exact ih (uniteWindowDirty_keeps window h)

/-- What the windows show of the changes, on the screen, is in the rectangle taken. -/
theorem consumeSurfaceDirtyRect_covers {cache : SurfaceCache} {windows : List WindowInfo}
    {window : WindowInfo} (hmem : window ∈ windows) (hvisible : isWindowVisible window = true)
    (hw : window.width < 2^31) (hh : window.height < 2^31) {i : ℕ}
    (hfind : findSurfaceCache cache window.surfaceID = some i)
    (hfit : (cache.entries i).EdgesFit) {px py : ℕ} (hd : (cache.entries i).Dirties px py)
    (hhas : (cache.entries i).info.Has px py) (hpx : (px : ℤ) < window.width)
    (hpy : (py : ℤ) < window.height) {width height : ℕ} {x y : ℤ}
    (hx : x = window.x + kBorder + px) (hy : y = window.y + kTitleBarHeight + py)
    (hscreen : 0 ≤ x ∧ x < width ∧ 0 ≤ y ∧ y < height) :
    (consumeSurfaceDirtyRect windows cache width height).1.Mem x y := by
  refine mem_clampRect.2 ⟨?_, hscreen⟩
  obtain ⟨before, after, rfl⟩ := List.append_of_mem hmem
  rw [List.foldl_append, List.foldl_cons]
  refine foldl_uniteWindowDirty_keeps after ?_
  rw [hx, hy]
  exact uniteWindowDirty_covers _ hvisible hw hh hfind hfit hd hhas hpx hpy

end Rects

/-! ## What the entries hold of the commits since the last pass -/

/-- What the latest commit of a surface said, among some. -/
def latestOf (batch : List SurfaceInfo) (id : ℕ) : Option SurfaceInfo :=
  (batch.filter (fun info => info.id = id)).getLast?

/-- The commit of a surface is its latest. -/
theorem latestOf_append_self (batch : List SurfaceInfo) (info : SurfaceInfo) :
    latestOf (batch ++ [info]) info.id = some info := by
  simp [latestOf, List.filter_append]

/-- The commit of another surface leaves the latest one. -/
theorem latestOf_append_other (batch : List SurfaceInfo) {info : SurfaceInfo} {id : ℕ}
    (hne : id ≠ info.id) : latestOf (batch ++ [info]) id = latestOf batch id := by
  simp [latestOf, List.filter_append, hne.symm]

/-- The cache after commits that found nothing marked: the entries of the surfaces committed have
what the latest commit said, and mark all that changed. -/
structure Pumped (batch : List SurfaceInfo) (cache : SurfaceCache) : Prop where
  sound : cache.Sound
  edgesFit : ∀ i < kMaxSurfaceCache, (cache.entries i).EdgesFit
  covers : ∀ commit ∈ batch, commit.id ≠ 0 → ∃ i, (cache.entries i).isOf commit.id = true ∧
    latestOf batch commit.id = some (cache.entries i).info ∧
    ∀ px py, commit.Dirties px py → (cache.entries i).Dirties px py

/-- The commit is one that the cache has room for, and whose change ends within an `int`. -/
def Fits (cache : SurfaceCache) (info : SurfaceInfo) : Prop :=
  ¬Evicts cache info.id ∧ info.EdgesFit

/-- A sound cache in which nothing is marked. -/
theorem Pumped.start {cache : SurfaceCache} (hsound : cache.Sound)
    (hclear : cache.Undirtied) : Pumped [] cache where
  sound := hsound
  edgesFit := fun i hi hd => by
    rw [hclear i hi] at hd
    exact absurd hd Bool.false_ne_true
  covers := fun _ h => absurd h List.not_mem_nil

section Pump

variable [Ui] [LawfulRects]

/-- One more commit. -/
theorem Pumped.step {batch : List SurfaceInfo} {cache : SurfaceCache} (h : Pumped batch cache)
    {info : SurfaceInfo} (hfits : Fits cache info) :
    Pumped (batch ++ [info]) (rememberSurface cache info) := by
  obtain ⟨hroom, hinfo⟩ := hfits
  have hlt := entryFor_lt cache info.id
  have hself := rememberSurface_self cache info
  obtain ⟨hedges, hmarks⟩ := commit_dirties (h.edgesFit _ hlt) hinfo (cache.commits + 1)
  refine ⟨rememberSurface_sound h.sound info, ?_, ?_⟩
  · intro i hi
    by_cases hp : i = entryFor cache info.id
    · -- The entry that is taken: its rectangle now covers the commit's.
      rw [hp, hself]
      exact hedges
    · have hother : (rememberSurface cache info).entries i = cache.entries i :=
        Function.update_of_ne hp _ _
      rw [hother]
      exact h.edgesFit i hi
  · intro commit hcommit hid
    rw [List.mem_append, List.mem_singleton] at hcommit
    -- A commit of another surface is covered by its own entry, which is not the one taken.
    by_cases hne : commit.id = info.id
    · refine ⟨entryFor cache info.id, ?_, ?_, ?_⟩
      · rw [hself, hne]
        exact isOf_iff.2 ⟨rfl, rfl⟩
      · rw [hself, hne]
        exact latestOf_append_self batch info
      · intro px py hp
        rw [hself]
        refine hmarks px py ?_
        rcases hcommit with hbefore | rfl
        · -- An earlier commit of the surface marked the entry that this one takes.
          obtain ⟨i, hof, -, hcovers⟩ := h.covers commit hbefore hid
          rw [hne] at hof
          have hplace := entryFor_of_isOf h.sound (by rw [← hne]; exact hid) hof
          rw [hplace]
          exact Or.inl (hcovers px py hp)
        · exact Or.inr hp
    · have hbefore := hcommit.resolve_right fun heq => hne (by rw [heq])
      obtain ⟨i, hof, hlatest, hcovers⟩ := h.covers commit hbefore hid
      have hsame := (rememberSurface_other hne hof).resolve_right fun he => hroom he.1
      refine ⟨i, ?_, ?_, ?_⟩
      · rw [hsame]
        exact hof
      · rw [hsame, latestOf_append_other batch hne]
        exact hlatest
      · intro px py hp
        rw [hsame]
        exact hcovers px py hp

/-- Any number of commits more. -/
theorem Pumped.run {done batch : List SurfaceInfo} {cache : SurfaceCache} (h : Pumped done cache)
    (hfits : Along rememberSurface Fits cache batch) :
    Pumped (done ++ batch) (batch.foldl rememberSurface cache) := by
  induction batch generalizing done cache with
  | nil =>
    rw [List.append_nil]
    exact h
  | cons info batch ih =>
    rw [← List.singleton_append, ← List.append_assoc]
    exact ih (h.step hfits.1) hfits.2

end Pump

end IUserApps.Compositor
