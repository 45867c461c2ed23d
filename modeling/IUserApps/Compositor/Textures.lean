import IUserApps.Compositor.Surfaces
import IUserApps.Runs

/-!
# The textures of the GL renderer

The GL renderer keeps a texture for each surface it draws (`gl_backend.cpp`). A surface in shared
memory is uploaded again when the generation in its texture is not that of its cache entry. The two
have different lifetimes: an entry may be dropped and made again, its generation counted from the
start, while the texture is kept for `kTextureKeepFrames` frames after its last use.

`drawsLatest_iff` is the exact condition under which no commit is skipped over a run of commits,
window lists and frames: whenever the generations agree, the texture was uploaded from the entry
that the surface has now, and whenever they do not, the surface has an address to upload from.
-/

namespace IUserApps.Compositor

open Runs

/-- The textures held at most. -/
def kMaxTextures : ℕ := 64
/-- The frames a texture may go undrawn before it is dropped. -/
def kTextureKeepFrames : ℕ := 240

/-- A texture; name zero for none. -/
structure Texture where
  name : ℕ
  width : ℤ
  height : ℤ
deriving DecidableEq, Repr

/-- A window's contents on the GPU. -/
structure SurfaceTexture where
  id : ℕ
  texture : Texture
  /-- It samples a GPU buffer, where it is. -/
  image : Bool
  /-- Shared memory: uploaded on each commit. -/
  shared : Bool
  /-- The generation in the texture; `none` is the source's `~0ULL`, which no generation reaches. -/
  uploaded : Option ℕ
  seen : Bool
  /-- The frame it was last drawn in. -/
  lastSeen : ℕ
  /-- The number of the commit whose pixels the texture holds. -/
  held : Option ℕ
  /-- The `born` of the entry they came from. -/
  source : ℕ
deriving DecidableEq, Repr

/-- A cleared place for a texture. -/
def SurfaceTexture.cleared : SurfaceTexture :=
  ⟨0, ⟨0, 0, 0⟩, false, false, none, false, 0, none, 0⟩

/-- The renderer's textures, indexed below `kMaxTextures`. -/
structure GlBackend where
  surfaces : ℕ → SurfaceTexture
  frameNumber : ℕ
  /-- The last name that `glGenTextures` gave. -/
  lastName : ℕ

/-- No texture is held and no frame has been drawn. -/
def GlBackend.start : GlBackend := ⟨fun _ => .cleared, 0, 0⟩

/-- The texture of a surface. -/
def findTexture (gl : GlBackend) (id : ℕ) : Option ℕ :=
  (List.range kMaxTextures).find? fun k =>
    decide ((gl.surfaces k).id = id) && decide ((gl.surfaces k).texture.name ≠ 0)

/-- The first place without a texture. -/
def freeTexture (gl : GlBackend) : Option ℕ :=
  (List.range kMaxTextures).find? fun k => (gl.surfaces k).id = 0

/-- The texture for a surface's entry, made if there is none and a place is free. `imported` says
that the surface is a GPU buffer which the renderer could import. -/
def surfaceTexture (gl : GlBackend) (entry : SurfaceCacheEntry) (imported : Bool) :
    GlBackend × Option ℕ :=
  match findTexture gl entry.id with
  | some k => (gl, some k)
  | none =>
    match freeTexture gl with
    | none => (gl, none)
    | some k =>
      let texture : Texture := ⟨gl.lastName + 1, int32 entry.info.width, int32 entry.info.height⟩
      let s : SurfaceTexture := { SurfaceTexture.cleared with
        id := entry.id, texture := texture, image := imported, shared := !imported }
      ({ gl with surfaces := Function.update gl.surfaces k s, lastName := gl.lastName + 1 }, some k)

/-- Copies the surface's pixels into the texture, if its generation is another and it has an
address. `number` is the surface's latest commit. -/
def SurfaceTexture.refresh (s : SurfaceTexture) (entry : SurfaceCacheEntry) (number : ℕ) :
    SurfaceTexture :=
  if s.shared && decide (s.uploaded ≠ some entry.generation) && decide (entry.info.address ≠ 0) then
    { s with
      texture := ⟨s.texture.name, int32 entry.info.width, int32 entry.info.height⟩
      uploaded := some entry.generation
      held := some number
      source := entry.born }
  else s

/-- The cached, non-empty surface that a window shows. -/
def drawnEntry (cache : SurfaceCache) (window : WindowInfo) : Option SurfaceCacheEntry :=
  ((findSurfaceCache cache window.surfaceID).map cache.entries).filter fun entry =>
    decide (entry.info.width ≠ 0) && decide (entry.info.height ≠ 0)

/-- Draws a window's contents: the renderer after it and the texture that was drawn. -/
def drawWindow (cache : SurfaceCache) (imported : ℕ → Bool) (gl : GlBackend)
    (window : WindowInfo) : GlBackend × Option ℕ :=
  match drawnEntry cache window with
  | none => (gl, none)
  | some entry =>
    match surfaceTexture gl entry (imported entry.id) with
    | (gl, none) => (gl, none)
    | (gl, some k) =>
      let s := { gl.surfaces k with seen := true }.refresh entry (cache.latest entry.id)
      ({ gl with surfaces := Function.update gl.surfaces k s }, some k)

/-- The compositor still knows the surface. -/
def cached (cache : SurfaceCache) (id : ℕ) : Bool :=
  (List.range kMaxSurfaceCache).any fun i => (cache.entries i).isOf id

/-- A texture at the end of a frame. -/
def SurfaceTexture.endFrame (s : SurfaceTexture) (cache : SurfaceCache) (frameNumber : ℕ) :
    SurfaceTexture :=
  let lastSeen := if s.seen then frameNumber else s.lastSeen
  if s.id ≠ 0 ∧ s.seen = false ∧ cached cache s.id = false ∧
      kTextureKeepFrames < frameNumber - lastSeen then .cleared
  else { s with lastSeen := lastSeen, seen := false }

/-- Drops the textures of surfaces that are neither known nor drawn any more. -/
def forgetUnseen (cache : SurfaceCache) (gl : GlBackend) : GlBackend :=
  { gl with surfaces := fun k =>
      if k < kMaxTextures then (gl.surfaces k).endFrame cache gl.frameNumber else gl.surfaces k }

/-- One pass of the loop of `drawFrame`. -/
def drawStep (cache : SurfaceCache) (imported : ℕ → Bool) (gl : GlBackend)
    (window : WindowInfo) : GlBackend :=
  (drawWindow cache imported gl window).1

/-- The renderer at the start of a frame. -/
def beginFrame (gl : GlBackend) : GlBackend := { gl with frameNumber := gl.frameNumber + 1 }

/-- Draws a frame. -/
def drawFrame (cache : SurfaceCache) (imported : ℕ → Bool) (gl : GlBackend)
    (windows : List WindowInfo) : GlBackend :=
  forgetUnseen cache
    ((windows.filter isWindowVisible).foldl (drawStep cache imported) (beginFrame gl))

/-- The surfaces as the compositor and its renderer know them. -/
structure Surfaces where
  cache : SurfaceCache
  gl : GlBackend

/-- Before the first commit and the first frame. -/
def Surfaces.start : Surfaces := ⟨.empty, .start⟩

/-- What happens to surfaces. A frame says which surfaces are GPU buffers that import. -/
inductive SurfaceEvent
  | commit (info : SurfaceInfo)
  | list (windows : List WindowInfo)
  | frame (windows : List WindowInfo) (imported : ℕ → Bool)

/-- One event of the surfaces, in the cache and in the textures. -/
def surfaceStep [Ui] (s : Surfaces) : SurfaceEvent → Surfaces
  | .commit info => { s with cache := rememberSurface s.cache info }
  | .list windows => { s with cache := forgetUnshownSurfaces s.cache windows }
  | .frame windows imported => { s with gl := drawFrame s.cache imported s.gl windows }

/-- A shared-memory texture that is drawn holds the surface's latest commit. -/
def DrawsLatest (cache : SurfaceCache) (imported : ℕ → Bool) (gl : GlBackend)
    (window : WindowInfo) : Prop :=
  ∀ k, (drawWindow cache imported gl window).2 = some k →
    ((drawStep cache imported gl window).surfaces k).shared = true →
    ((drawStep cache imported gl window).surfaces k).held = some (cache.latest window.surfaceID)

/-- The condition under which it does. Of a texture that the surface has: if it holds the entry's
generation then it was uploaded from this entry, else the surface has an address. Of one to be
made: the surface has an address. -/
def Refreshable (cache : SurfaceCache) (imported : ℕ → Bool) (gl : GlBackend)
    (window : WindowInfo) : Prop :=
  ∀ entry, drawnEntry cache window = some entry →
    match findTexture gl entry.id with
    | some k =>
      (gl.surfaces k).shared = true →
        if (gl.surfaces k).uploaded = some entry.generation then
          (gl.surfaces k).source = entry.born
        else entry.info.address ≠ 0
    | none =>
      (freeTexture gl).isSome → imported entry.id = false → entry.info.address ≠ 0

/-- A property of every window that a frame draws. -/
def EachDrawn (P : SurfaceCache → (ℕ → Bool) → GlBackend → WindowInfo → Prop) (s : Surfaces) :
    SurfaceEvent → Prop
  | .frame windows imported =>
    Along (drawStep s.cache imported) (P s.cache imported) (beginFrame s.gl)
      (windows.filter isWindowVisible)
  | _ => True

/-! ## The invariant -/

/-- A texture's upload against the cache: its commit was made, and an entry that the surface has is
either the one it came from, with its generation only if no commit followed, or was made by a later
commit. -/
def SurfaceTexture.Dated (s : SurfaceTexture) (cache : SurfaceCache) : Prop :=
  ∀ g, s.id ≠ 0 → s.uploaded = some g →
    ∃ c, s.held = some c ∧ c ≤ cache.latest s.id ∧ s.source ≤ cache.commits ∧
      ∀ i, (cache.entries i).isOf s.id = true →
        ((cache.entries i).born = s.source →
          g ≤ (cache.entries i).generation ∧
            (g = (cache.entries i).generation ↔ c = cache.latest s.id)) ∧
        ((cache.entries i).born ≠ s.source → c < cache.latest s.id)

/-- A texture that nothing was uploaded to holds nothing. -/
def SurfaceTexture.Blank (s : SurfaceTexture) : Prop := s.uploaded = none → s.held = none

/-- The textures of the renderer are dated. -/
structure GlBackend.Sound (gl : GlBackend) (cache : SurfaceCache) : Prop where
  dated : ∀ k, (gl.surfaces k).Dated cache
  blank : ∀ k, (gl.surfaces k).Blank

/-- The invariant of the runs. -/
structure Surfaces.Sound (s : Surfaces) : Prop where
  cache : s.cache.Sound
  gl : s.gl.Sound s.cache

/-- A cleared slot claims nothing. -/
theorem cleared_dated (cache : SurfaceCache) : SurfaceTexture.cleared.Dated cache := by
  intro g hid
  exact absurd rfl hid

/-- A commit keeps every texture dated: it is later than any upload. -/
theorem dated_rememberSurface [Ui] {cache : SurfaceCache} (hc : cache.Sound)
    {s : SurfaceTexture} (h : s.Dated cache) (info : SurfaceInfo) :
    s.Dated (rememberSurface cache info) := by
  intro g hid hup
  obtain ⟨c, hheld, hle, hsrc, hentry⟩ := h g hid hup
  have hlat := hc.latest_le s.id
  set p := entryFor cache info.id with hp
  have hentries : ∀ i, (rememberSurface cache info).entries i =
      if i = p then (cache.entries p).commit info (cache.commits + 1) else cache.entries i :=
    rememberSurface_entries cache info
  have hlatest := rememberSurface_latest cache info s.id
  have hcommits : (rememberSurface cache info).commits = cache.commits + 1 := rfl
  refine ⟨c, hheld, ?_, by omega, ?_⟩
  · rw [hlatest]
    split <;> omega
  · intro i hof
    rw [hentries i] at hof ⊢
    rw [hlatest]
    by_cases hip : i = p
    · -- The entry that the commit went to is the surface's, so the commit was too.
      rw [if_pos hip] at hof ⊢
      have hinfo : info.id = s.id := (isOf_iff.1 hof).2
      rw [if_pos hinfo.symm]
      by_cases hold : (cache.entries p).isOf info.id = true
      · have hborn : ((cache.entries p).commit info (cache.commits + 1)).born =
            (cache.entries p).born := if_pos hold
        have hgen : ((cache.entries p).commit info (cache.commits + 1)).generation =
            (cache.entries p).generation + 1 := by
          show (if (cache.entries p).isOf info.id then _ else _) + 1 = _
          rw [if_pos hold]
        rw [hborn, hgen]
        rw [hinfo] at hold
        obtain ⟨hsame, -⟩ := hentry p hold
        refine ⟨?_, by omega⟩
        intro hb
        have := (hsame hb).1
        refine ⟨by omega, by omega⟩
      · have hborn : ((cache.entries p).commit info (cache.commits + 1)).born =
            cache.commits + 1 := if_neg hold
        rw [hborn]
        exact ⟨by omega, by omega⟩
    · rw [if_neg hip] at hof ⊢
      -- The surface's entry is elsewhere, so the commit was another surface's.
      have hne : s.id ≠ info.id := by
        intro heq
        apply hip
        rw [hp, ← heq]
        exact (entryFor_of_isOf hc hid hof).symm
      rw [if_neg hne]
      exact hentry i hof

/-- A list of windows keeps every texture dated: it only drops entries. -/
theorem dated_forgetUnshownSurfaces {cache : SurfaceCache} {s : SurfaceTexture}
    (h : s.Dated cache) (windows : List WindowInfo) :
    s.Dated (forgetUnshownSurfaces cache windows) := by
  intro g hid hup
  obtain ⟨c, hheld, hle, hsrc, hentry⟩ := h g hid hup
  refine ⟨c, hheld, hle, hsrc, ?_⟩
  intro i hof
  obtain ⟨n, hn⟩ := forgetUnshownSurfaces_entry (isOf_iff.1 hof).1
  rw [hn] at hof ⊢
  exact hentry i hof

/-- An upload from the surface's entry dates the texture. -/
theorem refresh_dated {cache : SurfaceCache} (hc : cache.Sound) {s : SurfaceTexture}
    (h : s.Dated cache) {i : ℕ} (hof : (cache.entries i).isOf s.id = true) :
    (s.refresh (cache.entries i) (cache.latest s.id)).Dated cache := by
  unfold SurfaceTexture.refresh
  split
  · intro g hid hup
    refine ⟨cache.latest s.id, rfl, Nat.le_refl _, hc.born_le i (isOf_iff.1 hof).1, ?_⟩
    intro j hj
    have hji : j = i := hc.unique j i s.id hid hj hof
    subst hji
    refine ⟨?_, fun hne => absurd rfl hne⟩
    intro _
    have hg : (cache.entries j).generation = g := Option.some.inj hup
    exact ⟨by omega, ⟨fun _ => rfl, fun _ => hg.symm⟩⟩
  · exact h

/-- The entry that a window shows. -/
theorem drawnEntry_some {cache : SurfaceCache} {window : WindowInfo} {entry : SurfaceCacheEntry}
    (h : drawnEntry cache window = some entry) :
    entry.id = window.surfaceID ∧ entry.id ≠ 0 ∧
      ∃ i, entry = cache.entries i ∧ entry.isOf entry.id = true := by
  unfold drawnEntry at h
  obtain ⟨hmap, -⟩ := Option.filter_eq_some_iff.1 h
  obtain ⟨i, hfind, rfl⟩ := Option.map_eq_some_iff.1 hmap
  obtain ⟨hid, -, hof⟩ := findSurfaceCache_some hfind
  obtain ⟨hv, hid'⟩ := isOf_iff.1 hof
  refine ⟨hid', by rw [hid']; exact hid, i, rfl, isOf_iff.2 ⟨hv, rfl⟩⟩

/-- The texture found is of the surface. -/
theorem findTexture_id {gl : GlBackend} {id k : ℕ} (h : findTexture gl id = some k) :
    (gl.surfaces k).id = id := by
  have := List.find?_some h
  simp only [Bool.and_eq_true, decide_eq_true_eq] at this
  exact this.1

/-- A texture for an entry is of its surface and leaves the renderer sound. A texture that was
there is as it was; one that is made has nothing uploaded. -/
theorem surfaceTexture_spec {cache : SurfaceCache} {gl : GlBackend} (h : gl.Sound cache)
    (entry : SurfaceCacheEntry) (imported : Bool) :
    (surfaceTexture gl entry imported).1.Sound cache ∧
      ∀ k, (surfaceTexture gl entry imported).2 = some k →
        ((surfaceTexture gl entry imported).1.surfaces k).id = entry.id := by
  unfold surfaceTexture
  cases hfind : findTexture gl entry.id with
  | some k =>
    refine ⟨h, ?_⟩
    intro k' hk
    obtain rfl := Option.some.inj hk
    exact findTexture_id hfind
  | none =>
    cases hfree : freeTexture gl with
    | none => exact ⟨h, fun _ hk => absurd hk (by simp)⟩
    | some k =>
      -- Nothing has been uploaded to the new texture.
      simp only
      refine ⟨⟨?_, ?_⟩, ?_⟩
      · intro k'
        show (Function.update gl.surfaces k _ k').Dated cache
        rw [Function.update_apply]
        split
        · intro g _ hup
          exact absurd hup (by simp [SurfaceTexture.cleared])
        · exact h.dated k'
      · intro k'
        show (Function.update gl.surfaces k _ k').Blank
        rw [Function.update_apply]
        split
        · intro _
          rfl
        · exact h.blank k'
      · intro k' hk
        obtain rfl := Option.some.inj hk
        rw [Function.update_self]

/-- Drawing a window keeps the renderer sound. -/
theorem drawStep_sound {cache : SurfaceCache} (hc : cache.Sound) (imported : ℕ → Bool)
    {gl : GlBackend} (h : gl.Sound cache) (window : WindowInfo) :
    (drawStep cache imported gl window).Sound cache := by
  unfold drawStep drawWindow
  cases hentry : drawnEntry cache window with
  | none => exact h
  | some entry =>
    obtain ⟨-, -, i, rfl, hof⟩ := drawnEntry_some hentry
    obtain ⟨hs, hid⟩ := surfaceTexture_spec h (cache.entries i) (imported (cache.entries i).id)
    simp only
    cases htex : surfaceTexture gl (cache.entries i) (imported (cache.entries i).id) with
    | mk gl' tex =>
      rw [htex] at hs hid
      cases tex with
      | none => exact hs
      | some k =>
        have hidk : (gl'.surfaces k).id = (cache.entries i).id := hid k rfl
        -- The texture that was drawn is refreshed from the entry; the others are as they were.
        refine ⟨?_, ?_⟩
        · intro k'
          show (Function.update gl'.surfaces k _ k').Dated cache
          rw [Function.update_apply]
          split
          · have hseen : SurfaceTexture.Dated { gl'.surfaces k with seen := true } cache :=
              hs.dated k
            rw [← hidk] at hof ⊢
            exact refresh_dated hc hseen hof
          · exact hs.dated k'
        · intro k'
          show (Function.update gl'.surfaces k _ k').Blank
          rw [Function.update_apply]
          split
          · unfold SurfaceTexture.refresh
            split
            · intro hup
              exact absurd hup (by simp)
            · exact hs.blank k
          · exact hs.blank k'

/-- The end of a frame clears a texture or changes when it was seen. -/
theorem endFrame_cases (s : SurfaceTexture) (cache : SurfaceCache) (frameNumber : ℕ) :
    s.endFrame cache frameNumber = .cleared ∨
      ∃ n b, s.endFrame cache frameNumber = { s with lastSeen := n, seen := b } := by
  unfold SurfaceTexture.endFrame
  simp only
  generalize (if s.seen = true then frameNumber else s.lastSeen) = lastSeen
  split
  · exact Or.inl rfl
  · exact Or.inr ⟨_, _, rfl⟩

/-- The end of a frame clears a slot or leaves it as it was, but for when it was seen. -/
theorem forgetUnseen_cases (cache : SurfaceCache) (gl : GlBackend) (k : ℕ) :
    (forgetUnseen cache gl).surfaces k = .cleared ∨
      ∃ n b, (forgetUnseen cache gl).surfaces k =
        { gl.surfaces k with lastSeen := n, seen := b } := by
  have hdef : (forgetUnseen cache gl).surfaces k =
      if k < kMaxTextures then (gl.surfaces k).endFrame cache gl.frameNumber
      else gl.surfaces k := rfl
  rw [hdef]
  split
  · exact endFrame_cases _ _ _
  · exact Or.inr ⟨_, _, rfl⟩

/-- The end of a frame keeps the renderer sound: it only drops textures. -/
theorem forgetUnseen_sound {cache : SurfaceCache} {gl : GlBackend} (h : gl.Sound cache) :
    (forgetUnseen cache gl).Sound cache := by
  have hcases := forgetUnseen_cases cache gl
  refine ⟨?_, ?_⟩
  · intro k
    rcases hcases k with hk | ⟨n, b, hk⟩
    · rw [hk]
      exact cleared_dated cache
    · rw [hk]
      exact h.dated k
  · intro k
    rcases hcases k with hk | ⟨n, b, hk⟩
    · rw [hk]
      intro _
      rfl
    · rw [hk]
      exact h.blank k

/-- Every step keeps the invariant. -/
theorem surfaceStep_sound [Ui] {s : Surfaces} (h : s.Sound) (e : SurfaceEvent) :
    (surfaceStep s e).Sound := by
  cases e with
  | commit info =>
    exact ⟨rememberSurface_sound h.cache info,
      ⟨fun k => dated_rememberSurface h.cache (h.gl.dated k) info, h.gl.blank⟩⟩
  | list windows =>
    exact ⟨forgetUnshownSurfaces_sound h.cache windows,
      ⟨fun k => dated_forgetUnshownSurfaces (h.gl.dated k) windows, h.gl.blank⟩⟩
  | frame windows imported =>
    have hbegin : (beginFrame s.gl).Sound s.cache := ⟨h.gl.dated, h.gl.blank⟩
    have hrun : Along (drawStep s.cache imported) (fun _ _ => True) (beginFrame s.gl)
        (windows.filter isWindowVisible) := along_iff.2 fun _ _ _ _ => trivial
    have hdrawn := foldl_of_invariant (fun gl => gl.Sound s.cache)
      (fun gl window hgl _ => drawStep_sound h.cache imported hgl window) hbegin hrun
    exact ⟨h.cache, forgetUnseen_sound hdrawn⟩

/-! ## Drawing the latest commit -/

/-- A dated texture of the surface holds the latest commit after a refresh exactly when, holding the
entry's generation, it came from this entry, or not holding it, the surface has an address. -/
theorem refresh_held_iff {cache : SurfaceCache} {s : SurfaceTexture} (h : s.Dated cache)
    (hb : s.Blank) (hid : s.id ≠ 0) (hshared : s.shared = true) {i : ℕ}
    (hof : (cache.entries i).isOf s.id = true) :
    (s.refresh (cache.entries i) (cache.latest s.id)).held = some (cache.latest s.id) ↔
      if s.uploaded = some (cache.entries i).generation then s.source = (cache.entries i).born
      else (cache.entries i).info.address ≠ 0 := by
  unfold SurfaceTexture.refresh
  by_cases hup : s.uploaded = some (cache.entries i).generation
  · -- The generation has been uploaded already: it is this entry's only if the texture's source is.
    rw [if_neg (by simp [hup]), if_pos hup]
    obtain ⟨c, hheld, -, -, hentry⟩ := h _ hid hup
    obtain ⟨hsame, hother⟩ := hentry i hof
    rw [hheld]
    constructor
    · intro heq
      by_contra hne
      have := hother (fun hb => hne hb.symm)
      have := Option.some.inj heq
      omega
    · intro hsrc
      rw [((hsame hsrc.symm).2).1 rfl]
  · rw [if_neg hup]
    by_cases haddr : (cache.entries i).info.address = 0
    · -- Nothing is uploaded, and what the texture holds is an earlier commit, or nothing.
      rw [if_neg (by simp [haddr])]
      simp only [haddr, ne_eq, not_true_eq_false, iff_false]
      cases hu : s.uploaded with
      | none =>
        rw [hb hu]
        simp
      | some g =>
        obtain ⟨c, hheld, -, -, hentry⟩ := h g hid hu
        obtain ⟨hsame, hother⟩ := hentry i hof
        rw [hheld]
        intro heq
        have hc := Option.some.inj heq
        by_cases hsrc : (cache.entries i).born = s.source
        · have := ((hsame hsrc).2).2 hc
          rw [hu, this] at hup
          exact hup rfl
        · have := hother hsrc
          omega
    · rw [if_pos (by simp [hshared, hup, haddr])]
      simp [haddr]

/-- A window's texture holds the surface's latest commit exactly when it can be refreshed. -/
theorem drawsLatest_iff_refreshable {cache : SurfaceCache} {gl : GlBackend}
    (h : gl.Sound cache) (imported : ℕ → Bool) (window : WindowInfo) :
    DrawsLatest cache imported gl window ↔ Refreshable cache imported gl window := by
  unfold DrawsLatest Refreshable drawStep drawWindow
  cases hentry : drawnEntry cache window with
  | none => simp
  | some entry =>
    obtain ⟨hwid, hne, i, rfl, hof⟩ := drawnEntry_some hentry
    rw [← hwid]
    simp only [Option.some.injEq, forall_eq']
    unfold surfaceTexture
    cases hfind : findTexture gl (cache.entries i).id with
    | some k =>
      have hid := findTexture_id hfind
      simp only [Option.some.injEq, forall_eq', Function.update_self]
      have hshared : ({ gl.surfaces k with seen := true }.refresh (cache.entries i)
          (cache.latest (cache.entries i).id)).shared = (gl.surfaces k).shared := by
        unfold SurfaceTexture.refresh
        split <;> rfl
      rw [hshared]
      constructor
      · intro hd hs
        rw [← hid] at hof hne hd
        exact (refresh_held_iff (s := { gl.surfaces k with seen := true }) (h.dated k) (h.blank k)
          hne hs hof).1 (hd hs)
      · intro hr hs
        rw [← hid] at hof hne ⊢
        exact (refresh_held_iff (s := { gl.surfaces k with seen := true }) (h.dated k) (h.blank k)
          hne hs hof).2 (hr hs)
    | none =>
      cases hfree : freeTexture gl with
      | none => simp
      | some k =>
        -- A new texture is refreshed at once, when the surface has memory to upload from.
        simp only [Option.some.injEq, forall_eq', Function.update_self, Option.isSome_some,
          true_implies]
        cases himp : imported (cache.entries i).id with
        | true => simp [SurfaceTexture.refresh, SurfaceTexture.cleared]
        | false =>
          by_cases haddr : (cache.entries i).info.address = 0
          · simp [SurfaceTexture.refresh, SurfaceTexture.cleared, haddr]
          · simp [SurfaceTexture.refresh, SurfaceTexture.cleared, haddr]

/-- Over any run of commits, window lists and frames, every shared-memory surface that is drawn is
drawn from its latest commit exactly when every one is refreshable when it is drawn. -/
theorem drawsLatest_iff [Ui] (es : List SurfaceEvent) :
    Along surfaceStep (EachDrawn DrawsLatest) .start es ↔
      Along surfaceStep (EachDrawn Refreshable) .start es := by
  have hstart : Surfaces.start.Sound := by
    refine ⟨empty_sound, ⟨fun k => cleared_dated _, fun k _ => rfl⟩⟩
  refine along_congr_of_invariant Surfaces.Sound ?_ ?_ hstart
  · intro s e hs
    cases e with
    | commit info => exact Iff.rfl
    | list windows => exact Iff.rfl
    | frame windows imported =>
      have hbegin : (beginFrame s.gl).Sound s.cache := ⟨hs.gl.dated, hs.gl.blank⟩
      exact along_congr_of_invariant (fun gl => gl.Sound s.cache)
        (fun gl window hgl => drawsLatest_iff_refreshable hgl imported window)
        (fun gl window hgl _ => drawStep_sound hs.cache imported hgl window) hbegin
  · intro s e hs _
    exact surfaceStep_sound hs e

/-- A window that shows surface 7. -/
def showsSeven : WindowInfo where
  id := 1
  state := ⟨true, false, false, false⟩
  x := 100
  y := 100
  width := 4
  height := 4
  surfaceID := 7
  title := "Viewer"
  id_ne_zero := Nat.one_ne_zero

/-- A commit of surface 7, in shared memory. -/
def commitSeven : SurfaceEvent := .commit ⟨7, 4, 4, 16, 4096, 0, 0, 4, 4⟩

/-- Surface 7 is committed and drawn, then not shown for nine lists, and then committed again. -/
def recommitSeven : List SurfaceEvent :=
  [commitSeven, .frame [showsSeven] fun _ => false] ++ List.replicate 9 (.list []) ++ [commitSeven]

/-- The frame after it draws the surface from its first commit: its generation is one again. -/
theorem recommitSeven_stale :
    ¬Along (@surfaceStep plainUi) (EachDrawn DrawsLatest) .start
      (recommitSeven ++ [.frame [showsSeven] fun _ => false]) := by
  intro h
  have hdraw := (Along.at h).1 0 (by decide) (by decide)
  exact absurd hdraw (by decide)

end IUserApps.Compositor
