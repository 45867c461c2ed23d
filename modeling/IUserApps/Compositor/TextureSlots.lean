import IUserApps.Compositor.Cache
import IUserApps.Compositor.Textures
import IUserApps.Slots

/-!
# A texture for every window

The GL renderer has `kMaxTextures` slots for textures. A surface that is drawn takes a free one and keeps
it until it is neither in the surface cache nor was drawn in the last `kTextureKeepFrames` frames; a
surface that finds none free is not drawn. `textured_iff` is the exact condition under which every
visible window is drawn with its contents: in each frame the surfaces that hold a slot and those that
are shown are no more than there are slots. A window that is resized gets a new surface each time, and
runs out of slots.
-/

namespace IUserApps.Compositor

open Runs Slots

/-- The surface that a slot is held by. -/
def SurfaceTexture.key (s : SurfaceTexture) : Option ℕ := if s.id = 0 then none else some s.id

/-- The window whose texture a slot holds. -/
def GlBackend.key (gl : GlBackend) (k : ℕ) : Option ℕ := (gl.surfaces k).key

/-- The surfaces that hold a slot. -/
def GlBackend.held (gl : GlBackend) : Finset ℕ := Slots.held kMaxTextures gl.key

/-- Every visible window of the frame shows a cached, non-empty surface, and there are no more of them
than slots. -/
def ShowsCached (cache : SurfaceCache) (windows : List WindowInfo) : Prop :=
  (windows.filter isWindowVisible).length ≤ kMaxTextures ∧
    ∀ window ∈ windows.filter isWindowVisible, (drawnEntry cache window).isSome

/-- A window is drawn with its contents. -/
def HasTexture (cache : SurfaceCache) (imported : ℕ → Bool) (gl : GlBackend)
    (window : WindowInfo) : Prop :=
  (drawWindow cache imported gl window).2.isSome

/-- Every visible window of such a frame is. -/
def Textured (s : Surfaces) (e : SurfaceEvent) : Prop :=
  match e with
  | .frame windows _ => ShowsCached s.cache windows → EachDrawn HasTexture s e
  | _ => True

/-- The surfaces that hold a slot and those that the frame shows fit the slots. -/
def TexturesFit (s : Surfaces) : SurfaceEvent → Prop
  | .frame windows _ =>
    ShowsCached s.cache windows →
      (s.gl.held ∪ ((windows.filter isWindowVisible).map (·.surfaceID)).toFinset).card ≤ kMaxTextures
  | _ => True

/-- A surface has one slot at most, with a texture. -/
structure GlBackend.Slotted (gl : GlBackend) : Prop where
  distinct : Distinct kMaxTextures gl.key
  named : ∀ k, (gl.surfaces k).id ≠ 0 → (gl.surfaces k).texture.name ≠ 0

section
variable {gl : GlBackend} {cache : SurfaceCache} {imported : ℕ → Bool} {id k : ℕ}

/-- A slot in use is its window's. -/
theorem key_of_ne {s : SurfaceTexture} (h : s.id ≠ 0) : s.key = some s.id := if_neg h

/-- A slot of id 0 is free. -/
theorem key_of_eq {s : SurfaceTexture} (h : s.id = 0) : s.key = none := if_pos h

/-- A slot is a window's if it has its id, which is not 0. -/
theorem key_eq_some : gl.key k = some id ↔ (gl.surfaces k).id = id ∧ id ≠ 0 := by
  unfold GlBackend.key
  by_cases h : (gl.surfaces k).id = 0
  · rw [key_of_eq h, h]
    refine iff_of_false (by simp) ?_
    rintro ⟨rfl, hne⟩
    exact hne rfl
  · rw [key_of_ne h, Option.some.injEq]
    exact ⟨fun heq => ⟨heq, heq ▸ h⟩, And.left⟩

/-- A slot is free if its id is 0. -/
theorem key_eq_none : gl.key k = none ↔ (gl.surfaces k).id = 0 := by
  unfold GlBackend.key
  by_cases h : (gl.surfaces k).id = 0
  · exact iff_of_true (key_of_eq h) h
  · rw [key_of_ne h]
    exact iff_of_false (by simp) h

/-- A frame begins with the slots as they are. -/
theorem GlBackend.Slotted.beginFrame (h : gl.Slotted) :
    (beginFrame gl).Slotted ∧ (beginFrame gl).held = gl.held := ⟨⟨h.distinct, h.named⟩, rfl⟩

/-- The texture of a surface is found exactly when it holds a slot. -/
theorem findTexture_isSome (h : gl.Slotted) (hid : id ≠ 0) :
    (findTexture gl id).isSome ↔ id ∈ gl.held := by
  unfold findTexture GlBackend.held
  rw [List.find?_isSome, mem_held]
  constructor
  · rintro ⟨k, hk, hfound⟩
    rw [Bool.and_eq_true, decide_eq_true_eq, decide_eq_true_eq] at hfound
    exact ⟨k, List.mem_range.1 hk, key_eq_some.2 ⟨hfound.1, hid⟩⟩
  · rintro ⟨k, hk, hkey⟩
    obtain ⟨hsame, -⟩ := key_eq_some.1 hkey
    refine ⟨k, List.mem_range.2 hk, ?_⟩
    rw [Bool.and_eq_true, decide_eq_true_eq, decide_eq_true_eq]
    exact ⟨hsame, h.named k (hsame ▸ hid)⟩

/-- A slot is free exactly when not all are held. -/
theorem freeTexture_isSome (h : gl.Slotted) :
    (freeTexture gl).isSome ↔ gl.held.card < kMaxTextures := by
  unfold freeTexture GlBackend.held
  rw [List.find?_isSome]
  constructor
  · rintro ⟨k, hk, hfree⟩
    exact card_held_lt (List.mem_range.1 hk) (key_eq_none.2 (of_decide_eq_true hfree))
  · intro hlt
    by_contra hnone
    have hfull : ∀ k < kMaxTextures, gl.key k ≠ none := by
      intro k hk hkey
      exact hnone ⟨k, List.mem_range.2 hk, decide_eq_true (key_eq_none.1 hkey)⟩
    exact absurd (card_held_of_full h.distinct hfull) (Nat.ne_of_lt hlt)

/-- The slots are held as before when every slot has its surface and its texture. -/
theorem slotted_of_same {gl' : GlBackend} (h : gl.Slotted)
    (hsame : ∀ k, (gl'.surfaces k).id = (gl.surfaces k).id ∧
      (gl'.surfaces k).texture.name = (gl.surfaces k).texture.name) :
    gl'.Slotted ∧ gl'.held = gl.held := by
  have hkey : gl'.key = gl.key := by
    funext k
    unfold GlBackend.key SurfaceTexture.key
    rw [(hsame k).1]
  refine ⟨⟨?_, ?_⟩, ?_⟩
  · rw [hkey]
    exact h.distinct
  · intro k hid
    rw [(hsame k).1] at hid
    rw [(hsame k).2]
    exact h.named k hid
  · unfold GlBackend.held
    rw [hkey]

/-- A texture that is put in a free slot adds its surface. -/
theorem slotted_update (h : gl.Slotted) (hk : k < kMaxTextures) (hfree : (gl.surfaces k).id = 0)
    {s : SurfaceTexture} (hid : s.id ≠ 0) (hname : s.texture.name ≠ 0) (hnot : s.id ∉ gl.held)
    {gl' : GlBackend} (hgl' : gl'.surfaces = Function.update gl.surfaces k s) :
    gl'.Slotted ∧ gl'.held = insert s.id gl.held := by
  have hkey : gl'.key = Function.update gl.key k (some s.id) := by
    funext j
    unfold GlBackend.key
    rw [hgl']
    by_cases hjk : j = k
    · rw [hjk, Function.update_self, Function.update_self, key_of_ne hid]
    · rw [Function.update_of_ne hjk, Function.update_of_ne hjk]
  refine ⟨⟨?_, ?_⟩, ?_⟩
  · rw [hkey]
    exact h.distinct.update hnot k
  · intro j hj
    rw [hgl'] at hj ⊢
    by_cases hjk : j = k
    · rw [hjk, Function.update_self]
      exact hname
    · rw [Function.update_of_ne hjk] at hj ⊢
      exact h.named j hj
  · rw [GlBackend.held, hkey]
    exact held_update hk (key_eq_none.2 hfree) s.id

/-- The texture that is made for a surface. -/
def madeTexture (gl : GlBackend) (entry : SurfaceCacheEntry) (imported : Bool) : SurfaceTexture :=
  { SurfaceTexture.cleared with
    id := entry.id
    texture := ⟨gl.lastName + 1, int32 entry.info.width, int32 entry.info.height⟩
    image := imported
    shared := !imported }

/-- A surface that asks for a texture keeps its slot or takes a free one. -/
theorem surfaceTexture_slots (h : gl.Slotted) {entry : SurfaceCacheEntry} (hid : entry.id ≠ 0)
    (imported : Bool) :
    (surfaceTexture gl entry imported).1.Slotted ∧
      (surfaceTexture gl entry imported).1.held = place kMaxTextures gl.held entry.id ∧
      ((surfaceTexture gl entry imported).2.isSome ↔ Placed kMaxTextures gl.held entry.id) := by
  have hfound := findTexture_isSome h hid
  have hroom := freeTexture_isSome h
  unfold surfaceTexture
  cases hfind : findTexture gl entry.id with
  | some k =>
    -- The surface has its slot already.
    rw [hfind] at hfound
    have hmem : entry.id ∈ gl.held := hfound.1 rfl
    have hplaced : Placed kMaxTextures gl.held entry.id := Or.inl hmem
    refine ⟨h, ?_, iff_of_true rfl hplaced⟩
    rw [place, if_pos hplaced, Finset.insert_eq_of_mem hmem]
  | none =>
    rw [hfind] at hfound
    have hnot : entry.id ∉ gl.held := fun hmem => Bool.false_ne_true (hfound.2 hmem)
    cases hfree : freeTexture gl with
    | none =>
      -- No slot is free, so the texture is refused.
      rw [hfree] at hroom
      have hplaced : ¬Placed kMaxTextures gl.held entry.id := by
        rintro (hmem | hlt)
        · exact hnot hmem
        · exact Bool.false_ne_true (hroom.2 hlt)
      refine ⟨h, ?_, iff_of_false Bool.false_ne_true hplaced⟩
      rw [place, if_neg hplaced]
    | some k =>
      -- The free slot becomes the surface's.
      rw [hfree] at hroom
      have hk : k < kMaxTextures := List.mem_range.1 (List.mem_of_find?_eq_some hfree)
      have hzero := List.find?_some hfree
      have hplaced : Placed kMaxTextures gl.held entry.id := Or.inr (hroom.1 rfl)
      rw [place, if_pos hplaced]
      obtain ⟨hslotted, hheld⟩ := @slotted_update gl k h hk (of_decide_eq_true hzero)
        (madeTexture gl entry imported) hid (Nat.succ_ne_zero gl.lastName) hnot
        { gl with
          surfaces := Function.update gl.surfaces k (madeTexture gl entry imported)
          lastName := gl.lastName + 1 } rfl
      exact ⟨hslotted, hheld, iff_of_true rfl hplaced⟩

/-- The name of a texture as it is made. -/
theorem name_mk (name : ℕ) (width height : ℤ) : (Texture.mk name width height).name = name := rfl

/-- A refreshed texture is of the same surface and has the same name. -/
theorem refresh_same (s : SurfaceTexture) (entry : SurfaceCacheEntry) (number : ℕ) :
    (s.refresh entry number).id = s.id ∧ (s.refresh entry number).texture.name = s.texture.name := by
  unfold SurfaceTexture.refresh
  constructor
  · split <;> rfl
  · split
    · exact name_mk _ _ _
    · rfl

/-- A window whose surface is cached is drawn with its contents if the surface is placed. -/
theorem drawWindow_slots (h : gl.Slotted) {window : WindowInfo}
    (hentry : (drawnEntry cache window).isSome) :
    (drawStep cache imported gl window).Slotted ∧
      (drawStep cache imported gl window).held = place kMaxTextures gl.held window.surfaceID ∧
      (HasTexture cache imported gl window ↔ Placed kMaxTextures gl.held window.surfaceID) := by
  obtain ⟨entry, hsome⟩ := Option.isSome_iff_exists.1 hentry
  obtain ⟨hid, hne, -⟩ := drawnEntry_some hsome
  obtain ⟨hslotted, hheld, hplaced⟩ := surfaceTexture_slots h hne (imported entry.id)
  rw [← hid]
  unfold drawStep HasTexture drawWindow
  rw [hsome]
  dsimp only
  cases htex : surfaceTexture gl entry (imported entry.id) with
  | mk gl' tex =>
    rw [htex] at hslotted hheld hplaced
    cases tex with
    | none => exact ⟨hslotted, hheld, hplaced⟩
    | some k =>
      -- Refreshing a texture changes neither its surface nor its name.
      dsimp only at hslotted hheld hplaced ⊢
      have hsame := refresh_same { gl'.surfaces k with seen := true } entry (cache.latest entry.id)
      generalize SurfaceTexture.refresh _ entry (cache.latest entry.id) = s at hsame ⊢
      obtain ⟨hslotted', hheld'⟩ := @slotted_of_same gl'
        { gl' with surfaces := Function.update gl'.surfaces k s } hslotted (by
          intro j
          dsimp only
          by_cases hjk : j = k
          · rw [hjk, Function.update_self]
            exact hsame
          · rw [Function.update_of_ne hjk]
            exact ⟨rfl, rfl⟩)
      exact ⟨hslotted', hheld'.trans hheld, hplaced⟩

/-- The windows of a frame are all drawn with their contents exactly when their surfaces fit the slots
with those that hold one. -/
theorem eachDrawn_iff (h : gl.Slotted) {windows : List WindowInfo}
    (hcached : ∀ window ∈ windows, (drawnEntry cache window).isSome) :
    Along (drawStep cache imported) (HasTexture cache imported) gl windows ↔
      (gl.held ∪ (windows.map (·.surfaceID)).toFinset).card ≤ kMaxTextures := by
  have hle : gl.held.card ≤ kMaxTextures := card_held_le kMaxTextures gl.key
  rw [← along_place_iff hle]
  refine along_map GlBackend.held WindowInfo.surfaceID GlBackend.Slotted ?_ ?_ h
  · intro gl window hwindow hgl
    obtain ⟨hslotted, hheld, -⟩ := drawWindow_slots hgl (hcached window hwindow)
    exact ⟨hslotted, hheld⟩
  · intro gl window hwindow hgl
    exact (drawWindow_slots hgl (hcached window hwindow)).2.2

/-- The end of a frame keeps every surface to one slot. -/
theorem forgetUnseen_slotted (h : gl.Slotted) (cache : SurfaceCache) :
    (forgetUnseen cache gl).Slotted := by
  -- A slot is cleared, or has its surface and its texture.
  have hcases : ∀ k, ((forgetUnseen cache gl).surfaces k).id = 0 ∨
      (((forgetUnseen cache gl).surfaces k).id = (gl.surfaces k).id ∧
        ((forgetUnseen cache gl).surfaces k).texture.name = (gl.surfaces k).texture.name) := by
    intro k
    rcases forgetUnseen_cases cache gl k with hk | ⟨n, b, hk⟩
    · rw [hk]
      exact Or.inl rfl
    · rw [hk]
      exact Or.inr ⟨rfl, rfl⟩
  have hkey : ∀ k id, (forgetUnseen cache gl).key k = some id → gl.key k = some id := by
    intro k id hk
    obtain ⟨hid, hne⟩ := key_eq_some.1 hk
    rcases hcases k with hzero | ⟨hsame, -⟩
    · exact absurd (hid.symm.trans hzero) hne
    · exact key_eq_some.2 ⟨hsame.symm.trans hid, hne⟩
  refine ⟨?_, ?_⟩
  · intro j hj k hk id hidj hidk
    exact h.distinct j hj k hk id (hkey j id hidj) (hkey k id hidk)
  · intro k hid
    rcases hcases k with hzero | ⟨hsame, hname⟩
    · exact absurd hzero hid
    · rw [hname]
      exact h.named k (hsame ▸ hid)

/-- Drawing a window keeps every surface to one slot. -/
theorem drawStep_slotted (h : gl.Slotted) (window : WindowInfo) :
    (drawStep cache imported gl window).Slotted := by
  cases hentry : drawnEntry cache window with
  | none =>
    unfold drawStep drawWindow
    rw [hentry]
    exact h
  | some entry => exact (drawWindow_slots h (by rw [hentry]; rfl)).1

end

/-- No slot is in use at the start. -/
theorem start_slotted : GlBackend.start.Slotted := by
  refine ⟨?_, fun k hk => absurd rfl hk⟩
  intro j _ k _ id hid _
  exact absurd (key_eq_some.1 hid).1.symm (key_eq_some.1 hid).2

/-- At the start no slot is held. -/
theorem start_held : GlBackend.start.held = ∅ := held_eq_empty fun _ _ => key_eq_none.2 rfl

/-- Every step keeps every surface to one slot. -/
theorem surfaceStep_slotted [Ui] {s : Surfaces} (h : s.gl.Slotted) (e : SurfaceEvent) :
    (surfaceStep s e).gl.Slotted := by
  cases e with
  | commit info => exact h
  | list windows => exact h
  | frame windows imported =>
    have hrun : Along (drawStep s.cache imported) (fun _ _ => True) (beginFrame s.gl)
        (windows.filter isWindowVisible) := along_iff.2 fun _ _ _ _ => trivial
    have hdrawn := foldl_of_invariant GlBackend.Slotted
      (fun gl window hgl _ => drawStep_slotted hgl window) h.beginFrame.1 hrun
    exact forgetUnseen_slotted hdrawn s.cache

/-- Over any run of commits, window lists and frames, every visible window of every frame that shows
cached, non-empty surfaces only is drawn with its contents exactly when in each of these frames the
surfaces that hold a slot and those that are shown fit the slots. -/
theorem textured_iff [Ui] (es : List SurfaceEvent) :
    Along surfaceStep Textured .start es ↔ Along surfaceStep TexturesFit .start es := by
  refine along_congr_of_invariant (fun s => s.gl.Slotted) ?_ ?_ start_slotted
  · intro s e hs
    cases e with
    | commit info => exact Iff.rfl
    | list windows => exact Iff.rfl
    | frame windows imported =>
      refine imp_congr_right fun hshows => ?_
      exact eachDrawn_iff hs.beginFrame.1 hshows.2
  · intro s e hs _
    exact surfaceStep_slotted hs e

/-! ## A window that is resized -/

/-- A window that shows a surface. -/
def showsSurface (surfaceID : ℕ) : WindowInfo where
  id := 1
  state := ⟨true, false, false, false⟩
  x := 100
  y := 100
  width := 4
  height := 4
  surfaceID := surfaceID
  title := "Viewer"
  id_ne_zero := Nat.one_ne_zero

/-- The window gets a new surface, which is committed and attached. -/
def resizedTo (n : ℕ) : List SurfaceEvent :=
  [.commit ⟨n + 1, 4, 4, 16, 4096, 0, 0, 4, 4⟩, .list [showsSurface (n + 1)]]

/-- A frame with the window. -/
def drawn (n : ℕ) : SurfaceEvent := .frame [showsSurface (n + 1)] fun _ => false

/-- The window gets one surface after another, each drawn once. -/
def resizing (n : ℕ) : List SurfaceEvent := (List.range n).flatMap fun i => resizedTo i ++ [drawn i]

/-- In the first `kTextureKeepFrames` frames no texture is dropped. -/
theorem forgetUnseen_held {gl : GlBackend} (h : gl.Slotted)
    (hframe : gl.frameNumber ≤ kTextureKeepFrames) (cache : SurfaceCache) :
    (forgetUnseen cache gl).held = gl.held := by
  refine (slotted_of_same h fun k => ?_).2
  show (if k < kMaxTextures then (gl.surfaces k).endFrame cache gl.frameNumber
    else gl.surfaces k).id = _ ∧ (if k < kMaxTextures then
    (gl.surfaces k).endFrame cache gl.frameNumber else gl.surfaces k).texture.name = _
  split
  · unfold SurfaceTexture.endFrame
    dsimp only
    rw [if_neg (by omega)]
    exact ⟨rfl, rfl⟩
  · exact ⟨rfl, rfl⟩

/-- Drawing a window is part of one frame. -/
theorem drawStep_frameNumber (cache : SurfaceCache) (imported : ℕ → Bool) (gl : GlBackend)
    (window : WindowInfo) : (drawStep cache imported gl window).frameNumber = gl.frameNumber := by
  have htexture : ∀ entry b, (surfaceTexture gl entry b).1.frameNumber = gl.frameNumber := by
    intro entry b
    unfold surfaceTexture
    cases findTexture gl entry.id with
    | some k => rfl
    | none =>
      cases freeTexture gl with
      | none => rfl
      | some k => rfl
  unfold drawStep drawWindow
  cases drawnEntry cache window with
  | none => rfl
  | some entry =>
    dsimp only
    have hframe := htexture entry (imported entry.id)
    cases htex : surfaceTexture gl entry (imported entry.id) with
    | mk gl' tex =>
      rw [htex] at hframe
      cases tex with
      | none => exact hframe
      | some k => exact hframe

/-- The surfaces of the first `n` sizes. -/
def surfacesUpTo (n : ℕ) : Finset ℕ := (Finset.range n).image (· + 1)

/-- They are `n` surfaces. -/
theorem card_surfacesUpTo (n : ℕ) : (surfacesUpTo n).card = n := by
  unfold surfacesUpTo
  rw [Finset.card_image_of_injective _ (add_left_injective 1), Finset.card_range]

/-- The next size adds one surface. -/
theorem surfacesUpTo_succ (n : ℕ) : insert (n + 1) (surfacesUpTo n) = surfacesUpTo (n + 1) := by
  unfold surfacesUpTo
  rw [Finset.range_add_one, Finset.image_insert]

section
variable [Ui]

/-- A surface that was just committed and is shown is cached. -/
theorem drawnEntry_committed {cache : SurfaceCache} (hc : cache.Sound) {info : SurfaceInfo}
    {window : WindowInfo} (hid : info.id ≠ 0) (hwidth : info.width ≠ 0) (hheight : info.height ≠ 0)
    (hwindow : window.surfaceID = info.id) :
    (drawnEntry (forgetUnshownSurfaces (rememberSurface cache info) [window]) window).isSome := by
  have hsound := forgetUnshownSurfaces_sound (rememberSurface_sound hc info) [window]
  have hself := rememberSurface_self cache info
  have hof : ((rememberSurface cache info).entries (entryFor cache info.id)).isOf info.id = true := by
    rw [hself]
    exact isOf_iff.2 ⟨rfl, rfl⟩
  have hlt := lt_of_isOf (rememberSurface_sound hc info) hof
  have hshows : Shows [window] info.id := by
    unfold Shows
    rw [List.any_cons, hwindow, decide_eq_true rfl, Bool.true_or]
  have hlisted : (forgetUnshownSurfaces (rememberSurface cache info) [window]).entries
      (entryFor cache info.id) =
      { (rememberSurface cache info).entries (entryFor cache info.id) with unshownLists := 0 } := by
    rw [forgetUnshownSurfaces_lt hlt]
    exact listed_shown hof hshows
  have hfind : findSurfaceCache (forgetUnshownSurfaces (rememberSurface cache info) [window])
      info.id = some (entryFor cache info.id) := by
    apply findSurfaceCache_of_isOf hsound hid
    rw [hlisted]
    exact hof
  unfold drawnEntry
  rw [hwindow, hfind, Option.map_some, hlisted, hself, Option.filter_some, if_pos]
  · rfl
  · rw [Bool.and_eq_true, decide_eq_true_eq, decide_eq_true_eq]
    exact ⟨hwidth, hheight⟩

/-- After a new size, the window's surface is cached. -/
theorem resizedTo_cached {s : Surfaces} (h : s.cache.Sound) (n : ℕ) :
    (drawnEntry ((resizedTo n).foldl surfaceStep s).cache (showsSurface (n + 1))).isSome :=
  drawnEntry_committed h (Nat.succ_ne_zero n) (show 4 ≠ 0 by decide) (show 4 ≠ 0 by decide) rfl

/-- While the window is resized, every surface that it had holds a slot. -/
theorem resizing_held {n : ℕ} (hn : n ≤ kMaxTextures) :
    ((resizing n).foldl surfaceStep .start).gl.held = surfacesUpTo n ∧
      ((resizing n).foldl surfaceStep .start).gl.frameNumber = n ∧
      ((resizing n).foldl surfaceStep .start).gl.Slotted ∧
      ((resizing n).foldl surfaceStep .start).cache.Sound := by
  induction n with
  | zero =>
    exact ⟨start_held, rfl, start_slotted, empty_sound⟩
  | succ n ih =>
    obtain ⟨hheld, hframe, hslotted, hsound⟩ := ih (by omega)
    -- One more size: a new surface is committed and listed, and then a frame is drawn.
    have hsplit : resizing (n + 1) = resizing n ++ (resizedTo n ++ [drawn n]) := by
      unfold resizing
      rw [List.range_succ, List.flatMap_append, List.flatMap_singleton]
    rw [hsplit, List.foldl_append, List.foldl_append]
    generalize (resizing n).foldl surfaceStep .start = s at hheld hframe hslotted hsound ⊢
    have hentry := resizedTo_cached hsound n
    have hcache : ((resizedTo n).foldl surfaceStep s).cache.Sound :=
      forgetUnshownSurfaces_sound (rememberSurface_sound hsound _) _
    have hgl : ((resizedTo n).foldl surfaceStep s).gl = s.gl := rfl
    generalize (resizedTo n).foldl surfaceStep s = s' at hentry hcache hgl ⊢
    rw [← hgl] at hheld hframe hslotted
    obtain ⟨hbegin, hbeginHeld⟩ := hslotted.beginFrame
    obtain ⟨hdrawn, hplace, -⟩ := @drawWindow_slots _ _ (fun _ => false) hbegin _ hentry
    have hnumber := drawStep_frameNumber s'.cache (fun _ => false) (beginFrame s'.gl)
      (showsSurface (n + 1))
    have hplaced : Placed kMaxTextures (surfacesUpTo n) (n + 1) := by
      refine Or.inr ?_
      rw [card_surfacesUpTo]
      omega
    have hnext : (beginFrame s'.gl).frameNumber = n + 1 := congrArg (· + 1) hframe
    rw [hbeginHeld, hheld, place] at hplace
    generalize hgl2 : drawStep s'.cache (fun _ => false) (beginFrame s'.gl) (showsSurface (n + 1))
      = gl at hdrawn hplace hnumber
    have hfinal : ([drawn n].foldl surfaceStep s').gl = forgetUnseen s'.cache gl := by
      rw [← hgl2]
      rfl
    -- No texture has been unseen for long enough to be cleared.
    have hkeep : gl.frameNumber ≤ kTextureKeepFrames := by
      unfold kMaxTextures at hn
      unfold kTextureKeepFrames
      omega
    rw [hfinal]
    refine ⟨?_, hnumber.trans hnext, forgetUnseen_slotted hdrawn s'.cache, hcache⟩
    rw [forgetUnseen_held hdrawn hkeep]
    calc gl.held = insert (n + 1) (surfacesUpTo n) := hplace.trans (if_pos hplaced)
      _ = surfacesUpTo (n + 1) := surfacesUpTo_succ n

end

/-- The next surface of the window is drawn without its contents. -/
theorem resizing_losesContents :
    ¬Along (@surfaceStep plainUi) Textured .start
      (resizing kMaxTextures ++ resizedTo kMaxTextures ++ [drawn kMaxTextures]) := by
  intro h
  obtain ⟨hheld, -, hslotted, hsound⟩ := @resizing_held plainUi kMaxTextures (Nat.le_refl _)
  have hframe := Along.at h
  rw [List.foldl_append] at hframe
  generalize (resizing kMaxTextures).foldl (@surfaceStep plainUi) .start = s
    at hheld hslotted hsound hframe
  have hentry := @resizedTo_cached plainUi s hsound kMaxTextures
  have hgl : ((resizedTo kMaxTextures).foldl (@surfaceStep plainUi) s).gl = s.gl := rfl
  generalize (resizedTo kMaxTextures).foldl (@surfaceStep plainUi) s = s' at hframe hentry hgl
  rw [← hgl] at hheld hslotted
  have hcached : ∀ window ∈ [showsSurface (kMaxTextures + 1)],
      (drawnEntry s'.cache window).isSome := by
    intro window hwindow
    rw [List.mem_singleton.1 hwindow]
    exact hentry
  have hvisible : [showsSurface (kMaxTextures + 1)].filter isWindowVisible =
      [showsSurface (kMaxTextures + 1)] := rfl
  have hshows : ShowsCached s'.cache [showsSurface (kMaxTextures + 1)] := by
    unfold ShowsCached
    rw [hvisible]
    exact ⟨by decide, hcached⟩
  have hdrawn : Along (drawStep s'.cache fun _ => false) (HasTexture s'.cache fun _ => false)
      (beginFrame s'.gl) ([showsSurface (kMaxTextures + 1)].filter isWindowVisible) :=
    hframe hshows
  rw [hvisible] at hdrawn
  obtain ⟨hbegin, hbeginHeld⟩ := hslotted.beginFrame
  have hfit := (eachDrawn_iff hbegin hcached).1 hdrawn
  -- The surfaces that hold slots and the new one are one more than there are slots.
  have hunion : surfacesUpTo kMaxTextures ∪
      ([showsSurface (kMaxTextures + 1)].map (·.surfaceID)).toFinset =
      surfacesUpTo (kMaxTextures + 1) := by
    rw [← surfacesUpTo_succ, Finset.insert_eq, Finset.union_comm]
    rfl
  rw [hbeginHeld, hheld, hunion, card_surfacesUpTo] at hfit
  omega

end IUserApps.Compositor
