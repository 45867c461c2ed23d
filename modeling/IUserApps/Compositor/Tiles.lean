import IUserApps.Compositor.Taskbar
import IUserApps.Insertion

/-!
# The taskbar whatever the order of the windows

The window list is in stacking order, which changes with every focus. The taskbar's tiles, the window
that each stands for and what a click on one does depend on the windows alone: the tiles of the
windows of no pinned app are the `kMaxTiles - kPinnedCount` lowest ids in order (`foldl_addTile`), and
the window of a pinned app is determined by its windows (`pinnedWindow_unique`).
-/

namespace IUserApps.Compositor

open Insertion

/-- An open window of no pinned app. -/
def isLoose (window : WindowInfo) : Bool := isOpen window && (pinnedSlotOf window.title).isNone

/-- The ids of these windows. -/
def looseIds (windows : List WindowInfo) : List ℕ := (windows.filter isLoose).map (·.id)

/-- An open window of a pinned app. -/
def IsOf (slot : ℤ) (window : WindowInfo) : Prop :=
  isOpen window = true ∧ (pinnedSlotOf window.title).map Int.ofNat = some slot

/-- What the tile of a pinned app stands for: the app's active window, or the newest if none is
active, or no window if none is open. -/
def PinnedWindow (slot : ℤ) (windows : List WindowInfo) : Option WindowInfo → Prop
  | none => ∀ window ∈ windows, ¬IsOf slot window
  | some best => best ∈ windows ∧ IsOf slot best ∧ (isActive best = true ∨
      ∀ window ∈ windows, IsOf slot window → isActive window = false ∧ window.id ≤ best.id)

/-- No two windows are active. -/
def OneActive (windows : List WindowInfo) : Prop :=
  ∀ w ∈ windows, ∀ v ∈ windows, isActive w = true → isActive v = true → w = v

instance (windows : List WindowInfo) : Decidable (OneActive windows) :=
  inferInstanceAs (Decidable (∀ w ∈ windows, ∀ v ∈ windows, _))

/-! ## The tiles -/

/-- The tile of a window, before it has its place. -/
def looseTile (id : ℕ) : TaskbarTile := ⟨⟨0, 0, 0, 0⟩, -1, id⟩

/-- The order of the tiles. -/
def older (s t : TaskbarTile) : Bool := decide (s.windowId < t.windowId)

/-- The loop of `placeTile` is an insertion by shifting. -/
theorem placeTile_eq (id : ℕ) (place : ℕ) (tiles : ℕ → TaskbarTile) :
    placeTile id place tiles =
      shiftIn older kPinnedCount (looseTile id) place tiles := by
  induction place generalizing tiles with
  | zero => rfl
  | succ place ih =>
    have holder : older (looseTile id) (tiles place) = true ↔ id < (tiles place).windowId :=
      decide_eq_true_iff
    unfold placeTile shiftIn
    rw [← ih]
    simp only [holder]
    rfl

/-- `addTile` skips the other windows. -/
theorem skipped_eq (window : WindowInfo) :
    (!isOpen window || (pinnedSlotOf window.title).isSome) = !isLoose window := by
  unfold isLoose
  cases pinnedSlotOf window.title <;> cases isOpen window <;> rfl

/-- A layout has the tiles of these windows beside those of another layout. -/
structure Tiled (base layout : TaskbarLayout) (ids : List ℕ) : Prop where
  bar : layout.bar = base.bar
  start : layout.start = base.start
  tileCount : layout.tileCount = kPinnedCount + ids.length
  fits : ids.length ≤ kMaxTiles - kPinnedCount
  loose : slice layout.tiles kPinnedCount ids.length = ids.map looseTile
  others : ∀ i, i < kPinnedCount ∨ kPinnedCount + ids.length ≤ i → layout.tiles i = base.tiles i

/-- The tiles determine the layout. -/
theorem Tiled.unique {base layout layout' : TaskbarLayout} {ids : List ℕ}
    (h : Tiled base layout ids) (h' : Tiled base layout' ids) : layout' = layout := by
  have htiles : layout'.tiles = layout.tiles := by
    funext i
    by_cases hi : i < kPinnedCount ∨ kPinnedCount + ids.length ≤ i
    · rw [h.others i hi, h'.others i hi]
    · obtain ⟨k, rfl⟩ : ∃ k, i = kPinnedCount + k := ⟨i - kPinnedCount, by omega⟩
      have hk : k < ids.length := by omega
      have hloose := congrArg (·[k]?) (h'.loose.trans h.loose.symm)
      simp only [getElem?_slice _ _ hk] at hloose
      exact Option.some.inj hloose
  obtain ⟨bar, start, tileCount, tiles⟩ := layout
  obtain ⟨bar', start', tileCount', tiles'⟩ := layout'
  obtain rfl : bar' = bar := h'.bar.trans h.bar.symm
  obtain rfl : start' = start := h'.start.trans h.start.symm
  obtain rfl : tileCount' = tileCount := h'.tileCount.trans h.tileCount.symm
  obtain rfl : tiles' = tiles := htiles
  rfl

/-- A tile put in behind `n` others. -/
theorem Tiled.place {base layout : TaskbarLayout} {ids : List ℕ} {n : ℕ} (h : Tiled base layout ids)
    (hn : n ≤ ids.length) (hroom : n < kMaxTiles - kPinnedCount) (hlast : ids.length ≤ n + 1)
    (id : ℕ) :
    Tiled base { layout with
      tileCount := kPinnedCount + (n + 1)
      tiles := placeTile id (kPinnedCount + n) layout.tiles }
      (insertBehind (fun i j : ℕ => decide (i < j)) id (ids.take n)) := by
  have hlength : (insertBehind (fun i j : ℕ => decide (i < j)) id (ids.take n)).length = n + 1 := by
    rw [(perm_insertBehind id (ids.take n)).length_eq, List.length_append, List.length_singleton,
      List.length_take_of_le hn]
  have hslice : slice layout.tiles kPinnedCount n = (ids.take n).map looseTile := by
    rw [List.map_take, ← h.loose, take_slice _ _ hn]
  refine ⟨h.bar, h.start, ?_, ?_, ?_, ?_⟩
  · rw [hlength]
  · rw [hlength]
    exact hroom
  · rw [hlength, placeTile_eq, slice_shiftIn, hslice,
      @map_insertBehind _ _ _ older looseTile _ _ fun _ => rfl]
  · intro i hi
    rw [hlength] at hi
    show placeTile id (kPinnedCount + n) layout.tiles i = _
    rw [placeTile_eq, shiftIn_of_outside _ (by omega)]
    exact h.others i (by omega)

/-- The tile of a window of no pinned app goes among the others, of which the lowest that fit stay.
-/
theorem Tiled.add {base layout : TaskbarLayout} {ids : List ℕ} (h : Tiled base layout ids)
    {window : WindowInfo} (hloose : isLoose window = true)
    (hnew : window.id ∉ ids) :
    Tiled base (addTile layout window)
      ((insertBehind (fun i j : ℕ => decide (i < j)) window.id ids).take
        (kMaxTiles - kPinnedCount)) := by
  have hmax : kMaxTiles = kPinnedCount + 11 := rfl
  have hkeep : ¬(!isOpen window || (pinnedSlotOf window.title).isSome) = true := by
    rw [skipped_eq, hloose]
    exact Bool.false_ne_true
  have hcount := h.tileCount
  unfold addTile
  rw [if_neg hkeep]
  by_cases hfull : layout.tileCount = kMaxTiles
  · -- There is a tile for each of eleven windows: the last one makes room, or stays.
    have hlength : ids.length = 10 + 1 := by omega
    obtain ⟨init, last, rfl⟩ : ∃ init last, ids = init ++ [last] := by
      rcases List.eq_nil_or_concat' ids with rfl | hconcat
      · exact absurd hlength (by decide)
      · exact hconcat
    have hinit : init.length = 10 := by
      rw [List.length_append, List.length_singleton] at hlength
      omega
    -- The last of the eleven is the tile that the comparison reads.
    have hlast : layout.tiles (kMaxTiles - 1) = looseTile last := by
      have hget := congrArg (·[10]?) h.loose
      simp only [getElem?_slice _ _ (show 10 < (init ++ [last]).length by omega)] at hget
      rw [List.map_append, List.getElem?_append_right (by rw [List.length_map]; omega),
        List.length_map, hinit] at hget
      exact Option.some.inj hget
    rw [hlast]
    by_cases hskip : last < window.id
    · -- A window behind the last one is inserted past the eleventh place, and cut off.
      have hsame : (insertBehind (fun i j : ℕ => decide (i < j)) window.id (init ++ [last])).take
          (kMaxTiles - kPinnedCount) = init ++ [last] := by
        rw [insertBehind_concat_neg (by simpa using Nat.le_of_lt hskip)]
        exact List.take_left' hlength
      rw [if_pos ⟨hfull, hskip⟩, hsame]
      exact h
    · have hne : window.id ≠ last := by
        rintro rfl
        exact hnew (List.mem_append_right _ (List.mem_singleton_self _))
      -- Otherwise the last one is pushed out.
      have htake : (insertBehind (fun i j : ℕ => decide (i < j)) window.id (init ++ [last])).take
          (kMaxTiles - kPinnedCount) =
          insertBehind (fun i j : ℕ => decide (i < j)) window.id ((init ++ [last]).take 10) := by
        rw [insertBehind_concat_pos (decide_eq_true (by omega)), List.take_left' hinit]
        apply List.take_left'
        rw [(perm_insertBehind _ _).length_eq, List.length_append, hinit]
        rfl
      have hnot : ¬layout.tileCount < kMaxTiles := by omega
      have hplace := h.place (n := 10) (by omega) (by decide) (by omega) window.id
      rw [if_neg fun hs => hskip hs.2, htake]
      simp only [if_neg hnot]
      rw [hfull]
      exact hplace
  · -- With a tile free the whole list is kept.
    have hroom : layout.tileCount < kMaxTiles := by
      have := h.fits
      omega
    have hplace := h.place (n := ids.length) (Nat.le_refl _) (by omega) (Nat.le_succ _) window.id
    rw [List.take_of_length_le (Nat.le_refl _)] at hplace
    have hlength : (insertBehind (fun i j : ℕ => decide (i < j)) window.id ids).length ≤
        kMaxTiles - kPinnedCount := by
      rw [(perm_insertBehind _ _).length_eq, List.length_append, List.length_singleton]
      omega
    rw [if_neg fun hs => hfull hs.1, List.take_of_length_le hlength]
    simp only [if_pos hroom]
    rw [hcount]
    exact hplace

/-- Loose windows have different ids if all windows do. -/
theorem nodup_looseIds {windows : List WindowInfo} (hids : (windows.map (·.id)).Nodup) :
    (looseIds windows).Nodup := hids.sublist (List.filter_sublist.map _)

/-- One more window is one more id if it is loose. -/
theorem looseIds_concat (windows : List WindowInfo) (window : WindowInfo) :
    looseIds (windows ++ [window]) = looseIds windows ++
      if isLoose window = true then [window.id] else [] := by
  unfold looseIds
  rw [List.filter_append, List.map_append]
  split
  · next hloose => rw [List.filter_cons_of_pos hloose, List.filter_nil, List.map_singleton]
  · next hnot => rw [List.filter_cons_of_neg hnot, List.filter_nil, List.map_nil]

/-- The lowest ids of the windows of no pinned app, as many as there are tiles for. -/
def looseTiles (windows : List WindowInfo) : List ℕ :=
  ((looseIds windows).insertionSort (· ≤ ·)).take (kMaxTiles - kPinnedCount)

/-- The loose tiles do not depend on the order of the list. -/
theorem looseTiles_perm {windows windows' : List WindowInfo} (hperm : windows'.Perm windows) :
    looseTiles windows' = looseTiles windows := by
  have hids : (looseIds windows').Perm (looseIds windows) := (hperm.filter _).map _
  have hsorted : ((looseIds windows').insertionSort (· ≤ ·)).Perm
      ((looseIds windows).insertionSort (· ≤ ·)) :=
    (List.perm_insertionSort _ _).trans (hids.trans (List.perm_insertionSort _ _).symm)
  unfold looseTiles
  rw [hsorted.eq_of_pairwise (fun i j _ _ => Nat.le_antisymm) (List.pairwise_insertionSort _ _)
    (List.pairwise_insertionSort _ _)]

/-- The loop of `taskbarLayout` adds the tiles of the lowest ids. -/
theorem foldl_addTile {base : TaskbarLayout} (hbase : base.tileCount = kPinnedCount)
    {windows : List WindowInfo} (hids : (looseIds windows).Nodup) :
    Tiled base (windows.foldl addTile base) (looseTiles windows) := by
  unfold looseTiles
  rw [← sorted_lt, ← @foldl_insertBehind_take _ _ (weak_of_key fun i : ℕ => i)]
  induction windows using List.reverseRecOn with
  | nil => exact ⟨rfl, rfl, hbase, Nat.zero_le _, rfl, fun _ _ => rfl⟩
  | append_singleton windows window ih =>
    rw [looseIds_concat] at hids ⊢
    rw [List.foldl_append, List.foldl_append]
    have hbefore := ih hids.of_append_left
    by_cases hloose : isLoose window = true
    · rw [if_pos hloose] at hids ⊢
      refine hbefore.add hloose fun hmem => ?_
      -- The ids of the tiles are among those of the windows before.
      rw [@foldl_insertBehind_take _ _ (weak_of_key fun i : ℕ => i)] at hmem
      have hsorted := @arranged_sorted _ _ (weak_of_key fun i : ℕ => i) (looseIds windows)
      have hold := hsorted.perm.mem_iff.1 (List.mem_of_mem_take hmem)
      exact (List.nodup_append.1 hids).2.2 _ hold _ (List.mem_singleton_self _) rfl
    · rw [if_neg hloose]
      have hskip : (!isOpen window || (pinnedSlotOf window.title).isSome) = true := by
        rw [skipped_eq, Bool.eq_false_iff.2 hloose]
        rfl
      have hsame : addTile (windows.foldl addTile base) window = windows.foldl addTile base := by
        unfold addTile
        exact if_pos hskip
      show Tiled base (addTile (windows.foldl addTile base) window) _
      rw [hsame]
      exact hbefore

/-! ## The windows -/

/-- One more window is the pinned one if it is better than the best so far. -/
theorem pinnedWindow_concat {slot : ℤ} {windows : List WindowInfo} {best : Option WindowInfo}
    (h : PinnedWindow slot windows best) (window : WindowInfo) :
    PinnedWindow slot (windows ++ [window]) (betterWindow slot best window) := by
  have hof : (!isOpen window || (pinnedSlotOf window.title).map Int.ofNat != some slot) = true ↔
      ¬IsOf slot window := by
    unfold IsOf
    cases isOpen window <;> simp
  unfold betterWindow
  by_cases hwindow : IsOf slot window
  · rw [if_neg (fun hs => hof.1 hs hwindow)]
    cases best with
    | none =>
      -- The first window of the app is the best so far.
      refine ⟨List.mem_append_right _ (List.mem_singleton_self _), hwindow, ?_⟩
      cases hactive : isActive window with
      | true => exact Or.inl rfl
      | false =>
        right
        intro v hv hof'
        rcases List.mem_append.1 hv with hv | hv
        · exact absurd hof' (h v hv)
        · rw [List.mem_singleton.1 hv]
          exact ⟨hactive, Nat.le_refl _⟩
    | some b =>
      obtain ⟨hmem, hb, hbest⟩ := h
      dsimp only
      -- It takes the place of the best one if it is active, or of a higher id than an idle one.
      by_cases hbetter : (isActive window || (!isActive b && decide (b.id < window.id))) = true
      · rw [if_pos hbetter]
        refine ⟨List.mem_append_right _ (List.mem_singleton_self _), hwindow, ?_⟩
        cases hactive : isActive window with
        | true => exact Or.inl rfl
        | false =>
          right
          rw [hactive, Bool.false_or, Bool.and_eq_true, Bool.not_eq_true', decide_eq_true_eq]
            at hbetter
          obtain ⟨hidle, hlt⟩ := hbetter
          intro v hv hof'
          rcases List.mem_append.1 hv with hv | hv
          · obtain ⟨hv', hle⟩ := (hbest.resolve_left (by simp [hidle])) v hv hof'
            exact ⟨hv', by omega⟩
          · rw [List.mem_singleton.1 hv]
            exact ⟨hactive, Nat.le_refl _⟩
      · rw [if_neg hbetter]
        refine ⟨List.mem_append_left _ hmem, hb, ?_⟩
        rcases hbest with hactive | hidle
        · exact Or.inl hactive
        · right
          have hb' := (hidle b hmem hb).1
          rw [hb'] at hbetter
          simp only [Bool.not_false, Bool.true_and, Bool.or_eq_true, decide_eq_true_eq, not_or]
            at hbetter
          intro v hv hof'
          rcases List.mem_append.1 hv with hv | hv
          · exact hidle v hv hof'
          · rw [List.mem_singleton.1 hv]
            exact ⟨Bool.eq_false_iff.2 hbetter.1, Nat.le_of_not_lt hbetter.2⟩
  · -- A window of another app, or a closed one, is passed over.
    rw [if_pos (hof.2 hwindow)]
    have hnew : ∀ v ∈ windows ++ [window], IsOf slot v → v ∈ windows := by
      intro v hv hof'
      rcases List.mem_append.1 hv with hv | hv
      · exact hv
      · rw [List.mem_singleton.1 hv] at hof'
        exact absurd hof' hwindow
    cases best with
    | none => exact fun v hv hof' => h v (hnew v hv hof') hof'
    | some b =>
      obtain ⟨hmem, hb, hbest⟩ := h
      exact ⟨List.mem_append_left _ hmem, hb,
        hbest.imp_right fun hidle v hv hof' => hidle v (hnew v hv hof') hof'⟩

/-- The window of a pinned tile. -/
theorem pinnedWindow_tileWindow {tile : TaskbarTile} (h : 0 ≤ tile.slot) (windows : List WindowInfo) :
    PinnedWindow tile.slot windows (tileWindow tile windows) := by
  unfold tileWindow
  rw [if_neg (by omega)]
  induction windows using List.reverseRecOn with
  | nil => exact fun window hwindow => absurd hwindow List.not_mem_nil
  | append_singleton windows window ih =>
    rw [List.foldl_append]
    exact pinnedWindow_concat ih window

/-- It is determined by the windows, in whatever order. -/
theorem pinnedWindow_unique {slot : ℤ} {windows : List WindowInfo} (hactive : OneActive windows)
    (hids : (windows.map (·.id)).Nodup) {best best' : Option WindowInfo}
    (h : PinnedWindow slot windows best) (h' : PinnedWindow slot windows best') : best' = best := by
  have hwindows : ∀ w ∈ windows, ∀ v ∈ windows, w.id = v.id → w = v :=
    fun w hw v hv => List.inj_on_of_nodup_map hids hw hv
  cases best with
  | none =>
    cases best' with
    | none => rfl
    | some b' => exact absurd h'.2.1 (h b' h'.1)
  | some b =>
    cases best' with
    | none => exact absurd h.2.1 (h' b h.1)
    | some b' =>
      obtain ⟨hmem, hb, hbest⟩ := h
      obtain ⟨hmem', hb', hbest'⟩ := h'
      congr 1
      rcases hbest with hon | hidle
      · rcases hbest' with hon' | hidle'
        · exact hactive b' hmem' b hmem hon' hon
        · exact absurd hon (by simp [(hidle' b hmem hb).1])
      · have hoff' := (hidle b' hmem' hb').1
        have hidle' := hbest'.resolve_left (by simp [hoff'])
        exact hwindows b' hmem' b hmem
          (Nat.le_antisymm (hidle b' hmem' hb').2 (hidle' b hmem hb).2)

/-- The best window of a pinned tile does not depend on the order of the list. -/
theorem pinnedWindow_perm {slot : ℤ} {windows windows' : List WindowInfo}
    (hperm : windows'.Perm windows) {best : Option WindowInfo}
    (h : PinnedWindow slot windows' best) : PinnedWindow slot windows best := by
  cases best with
  | none => exact fun w hw => h w (hperm.mem_iff.2 hw)
  | some b =>
    obtain ⟨hmem, hb, hbest⟩ := h
    exact ⟨hperm.mem_iff.1 hmem, hb, hbest.imp_right fun hidle w hw => hidle w (hperm.mem_iff.2 hw)⟩

/-- A window is found under its id if no other has it. -/
theorem windowById_eq_some {windows : List WindowInfo} (hids : (windows.map (·.id)).Nodup) {id : ℕ}
    {window : WindowInfo} :
    windowById windows id = some window ↔ window ∈ windows ∧ window.id = id := by
  unfold windowById
  constructor
  · intro h
    have hid := List.find?_some h
    exact ⟨List.mem_of_find?_eq_some h, of_decide_eq_true hid⟩
  · rintro ⟨hmem, rfl⟩
    cases hfind : windows.find? (fun w => w.id = window.id) with
    | none => exact absurd (List.find?_eq_none.1 hfind window hmem) (by simp)
    | some found =>
      have hid := List.find?_some hfind
      rw [List.inj_on_of_nodup_map hids (List.mem_of_find?_eq_some hfind) hmem
        (of_decide_eq_true hid)]

/-- The window a tile stands for is the same in any order of the windows. -/
theorem tileWindow_perm {windows windows' : List WindowInfo} (hperm : windows'.Perm windows)
    (hids : (windows.map (·.id)).Nodup) (hactive : OneActive windows) (tile : TaskbarTile) :
    tileWindow tile windows' = tileWindow tile windows := by
  by_cases hslot : tile.slot < 0
  · have hids' : (windows'.map (·.id)).Nodup := (hperm.map _).nodup_iff.2 hids
    have hsame : windowById windows' tile.windowId = windowById windows tile.windowId := by
      apply Option.ext
      intro window
      rw [windowById_eq_some hids, windowById_eq_some hids', hperm.mem_iff]
    unfold tileWindow
    rw [if_pos hslot, if_pos hslot, hsame]
  · have hpinned : 0 ≤ tile.slot := Int.not_lt.1 hslot
    exact pinnedWindow_unique hactive hids (pinnedWindow_tileWindow hpinned windows)
      (pinnedWindow_perm hperm (pinnedWindow_tileWindow hpinned windows'))

/-! ## The taskbar -/

/-- The layout depends on the tiles alone. -/
theorem taskbarLayout_perm {windows windows' : List WindowInfo} (hperm : windows'.Perm windows)
    (hids : (windows.map (·.id)).Nodup) (screenWidth screenHeight : ℕ) :
    taskbarLayout screenWidth screenHeight windows' =
      taskbarLayout screenWidth screenHeight windows := by
  have hids' : (windows'.map (·.id)).Nodup := (hperm.map _).nodup_iff.2 hids
  have hsame : ∀ base : TaskbarLayout, base.tileCount = kPinnedCount →
      windows'.foldl addTile base = windows.foldl addTile base := by
    intro base hbase
    have htiled := foldl_addTile hbase (nodup_looseIds hids')
    rw [looseTiles_perm hperm] at htiled
    exact (foldl_addTile hbase (nodup_looseIds hids)).unique htiled
  unfold taskbarLayout
  dsimp only
  rw [hsame _ rfl]

/-- Beside the pinned apps the layout has the tiles of the lowest ids. -/
theorem taskbarLayout_tiles {windows : List WindowInfo} (hids : (windows.map (·.id)).Nodup)
    (screenWidth screenHeight : ℕ) :
    let layout := taskbarLayout screenWidth screenHeight windows
    layout.tileCount = kPinnedCount + (looseTiles windows).length ∧
      (∀ i < kPinnedCount, (layout.tiles i).slot = i) ∧
      (slice layout.tiles kPinnedCount (looseTiles windows).length).map
          (fun tile => (tile.slot, tile.windowId)) = (looseTiles windows).map fun id => (-1, id) := by
  intro layout
  -- The tiles before the last loop, which places their rectangles only.
  obtain ⟨base, pre, hbase, hpre, hcount, htiles⟩ : ∃ base pre : TaskbarLayout,
      (∀ i < kPinnedCount, (base.tiles i).slot = i) ∧ Tiled base pre (looseTiles windows) ∧
        layout.tileCount = pre.tileCount ∧
        ∀ i, ((layout.tiles i).slot, (layout.tiles i).windowId) =
          ((pre.tiles i).slot, (pre.tiles i).windowId) := by
    refine ⟨_, _, ?_, foldl_addTile rfl (nodup_looseIds hids), rfl, fun i => ?_⟩
    · intro i hi
      exact congrArg TaskbarTile.slot (if_pos hi)
    · show ((if i < _ then _ else _ : TaskbarTile).slot,
        (if i < _ then _ else _ : TaskbarTile).windowId) = _
      split <;> rfl
  refine ⟨hcount.trans hpre.tileCount, fun i hi => ?_, ?_⟩
  · have hslot := congrArg Prod.fst (htiles i)
    rw [← hbase i hi, ← hpre.others i (Or.inl hi)]
    exact hslot
  · have hmap : (slice layout.tiles kPinnedCount (looseTiles windows).length).map
        (fun tile => (tile.slot, tile.windowId)) =
        (slice pre.tiles kPinnedCount (looseTiles windows).length).map
          fun tile => (tile.slot, tile.windowId) := by
      unfold slice
      rw [List.map_map, List.map_map]
      exact List.map_congr_left fun i _ => htiles i
    rw [hmap, hpre.loose, List.map_map]
    rfl

/-- The taskbar has the pinned tiles in order and then those of the lowest ids of the other windows; a
pinned tile stands for its app's active window, or else the newest; and in any order of the windows
the layout, the window of each tile and what a click does are the same. -/
theorem taskbar_orderFree {windows : List WindowInfo} (hids : (windows.map (·.id)).Nodup)
    (hactive : OneActive windows) (screenWidth screenHeight : ℕ) :
    let layout := taskbarLayout screenWidth screenHeight windows
    layout.tileCount = kPinnedCount + (looseTiles windows).length ∧
      (∀ i < kPinnedCount, (layout.tiles i).slot = i ∧
        PinnedWindow i windows (tileWindow (layout.tiles i) windows)) ∧
      (slice layout.tiles kPinnedCount (looseTiles windows).length).map
          (fun tile => (tile.slot, tile.windowId)) = (looseTiles windows).map (fun id => (-1, id)) ∧
      ∀ windows', windows'.Perm windows →
        taskbarLayout screenWidth screenHeight windows' = layout ∧
          (∀ tile, tileWindow tile windows' = tileWindow tile windows) ∧
          ∀ outcome i, taskbarClick outcome
              (taskbarLayout screenWidth screenHeight windows') i windows' =
            taskbarClick outcome layout i windows := by
  intro layout
  obtain ⟨hcount, hslots, hloose⟩ := taskbarLayout_tiles hids screenWidth screenHeight
  refine ⟨hcount, fun i hi => ⟨hslots i hi, ?_⟩, hloose, fun windows' hperm => ?_⟩
  · have hpos : 0 ≤ (layout.tiles i).slot := by
      rw [hslots i hi]
      exact Int.natCast_nonneg i
    have hwindow := pinnedWindow_tileWindow hpos windows
    rwa [hslots i hi] at hwindow
  · have hlayout := taskbarLayout_perm hperm hids screenWidth screenHeight
    have htile := tileWindow_perm hperm hids hactive
    refine ⟨hlayout, htile, fun outcome i => ?_⟩
    rw [hlayout]
    unfold taskbarClick
    dsimp only
    rw [htile]

/-- An open window that is not active. -/
def idleWindow (n : ℕ) (title : String) : WindowInfo where
  id := n + 1
  state := ⟨false, false, false, false⟩
  x := 0
  y := 0
  width := 100
  height := 100
  surfaceID := 0
  title := title
  id_ne_zero := Nat.succ_ne_zero n

/-- A terminal between two other windows, and the same raised. -/
theorem taskbar_orderFree_three :
    let windows := [idleWindow 6 "Notes", idleWindow 1 "Terminal", idleWindow 2 "Clock"]
    looseTiles windows = [3, 7] ∧
      taskbarLayout 800 600 [windows[0], windows[2], windows[1]] = taskbarLayout 800 600 windows := by
  intro windows
  have hids : (windows.map (·.id)).Nodup := by decide
  have hactive : OneActive windows := by decide
  obtain ⟨-, -, -, hperm⟩ := taskbar_orderFree hids hactive 800 600
  exact ⟨by decide, (hperm _ (by decide)).1⟩

end IUserApps.Compositor
