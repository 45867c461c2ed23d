import IUserApps.FileBrowser.Opening
import IUserApps.Runs

/-!
# The list of the file browser

What the window shows of the current folder: its entries in order, of these the rows whose name
contains the search text, the selected row and the status line. The folder may be read differently
every time; `Disk` is what the kernel answers while an event is handled.

A selection is kept by name: when the folder is read again or the search text changes, the row that
was selected stays selected as long as it is shown, and otherwise the first row is (`kept`).

The list box keeps the selection it is given, and lets the user select any row it has. The focus,
the sidebar's places and the pictures are left out.
-/

namespace IUserApps.FileBrowser

open Histories Insertion Loops Runs

/-- The entries read at most. -/
def kMaxEntries : ℕ := 512

/-- What the kernel answers. A folder is read into room for `kMaxEntries` entries, whose names fit
into their fields. -/
structure Disk where
  readdir : Path → Option (List DirEntry)
  stat : Path → Option ℤ
  spawn : Path → Bool
  readdir_fits : ∀ path dirs, readdir path = some dirs →
    dirs.length ≤ kMaxEntries ∧ ∀ dir ∈ dirs, Fits dir.name

/-! ## Names that contain a text -/

/-- The characters of `needle` from the beginning of `name` on, ignoring case. -/
def foldedAt : Path → Path → Bool
  | _, [] => true
  | name, n :: needle =>
    decide (asciiLower (name.headD 0) = asciiLower n) && foldedAt name.tail needle

/-- Whether `name` contains `needle`, ignoring case: it is tried at each place before the NUL. -/
def containsFolded (name needle : Path) : Bool :=
  if needle = [] then true
  else
    match name with
    | [] => false
    | c :: name => foldedAt (c :: name) needle || containsFolded name needle

/-- The window: the browser, the entries of its folder, the rows that are shown and the status
line. -/
structure Window where
  browser : Browser
  /-- What the last reading of the folder gave. -/
  found : Option (List DirEntry)
  entries : ℕ → BrowserEntry
  count : ℕ
  search : Path
  visible : List ℕ
  selected : ℤ
  backEnabled : Bool
  forwardEnabled : Bool
  upEnabled : Bool
  status : Message

namespace Window

/-- The names in the rows. -/
def names (w : Window) : List Path := w.visible.map fun i => (w.entries i).dir.name

/-- The name in the selected row. -/
def selectedName (w : Window) : Option Path :=
  if w.selected < 0 then none else w.names[w.selected.toNat]?

/-- The size of the buffer for the status line. -/
def lineCapacity : ℕ := 200

/-- The line that `show_status` writes when there is no message. -/
def statusLine (w : Window) : Path :=
  let append := appendText lineCapacity
  let number := fun line value => append line (ascii (Nat.repr value))
  if w.count = 0 then append [] (ascii "Empty folder")
  else
    let line := if w.visible.length ≠ w.count then
        append (number [] w.visible.length) (ascii " of ")
      else []
    let line := append (number line w.count) (ascii (if w.count = 1 then " item" else " items"))
    w.selectedName.elim line fun name =>
      append (append (append line (ascii "  -  ")) name) (ascii " selected")

/-- Writes the status line anew. -/
def showStatus (w : Window) : Window := { w with status := ⟨w.statusLine, false⟩ }

/-- A pass of the loop over the entries: the rows so far, and the one to select. -/
def filterEntry (w : Window) (keep : Path) (i : ℕ) (rows : List ℕ × ℤ) : List ℕ × ℤ :=
  let name := (w.entries i).dir.name
  if containsFolded name w.search = false then rows
  else
    (rows.1 ++ [i],
      if keep ≠ [] ∧ rows.2 < 0 ∧ name = keep then (rows.1.length : ℤ) else rows.2)

/-- Shows the entries whose name contains the search text, selecting `select`, or what is selected
now, when it is shown. -/
def applyFilter (w : Window) (select : Option Path) : Window :=
  let previous := select.elim w.selectedName some
  let keep := copyString pathCapacity (previous.getD [])
  let (visible, selected) := upTo 0 w.count (w.filterEntry keep) ([], -1)
  let selected := if selected < 0 ∧ 0 < visible.length then 0 else selected
  { w with visible := visible, selected := selected }.showStatus

/-- The entries that are not the folder itself or the one above it. -/
def listed (found : Option (List DirEntry)) : List DirEntry :=
  (found.getD []).filter fun dir => dir.name ≠ ascii "." ∧ dir.name ≠ ascii ".."

/-- Rereads the current folder, selecting `select` when it is there. The call itself is noted in the
`browser`. -/
def loadDirectory (disk : Disk) (w : Window) (select : Option Path) : Window :=
  let keep := (select.map (copyString pathCapacity)).getD []
  let found := disk.readdir w.browser.currentPath
  let loaded := ((listed found).take kMaxEntries).map fun dir =>
    (loadEntry w.browser.currentPath disk.stat dir).1
  let w := { w with
    found := found
    entries := sortEntries (fun i => loaded[i]?.getD (w.entries i)) loaded.length
    count := loaded.length }
  let w := w.applyFilter (some keep)
  let w := if found = none then
      { w with status := setMessage (ascii "Cannot read this folder") true }
    else w
  { w with
    backEnabled := decide (0 < w.browser.backStack.count)
    forwardEnabled := decide (0 < w.browser.forwardStack.count)
    upEnabled := !pathIsRoot w.browser.currentPath }

/-- Loads the folder that the browser went to, with the search text cleared. -/
def reopened (disk : Disk) (w : Window) (browser : Browser) (select : Option Path) : Window :=
  { w with browser := browser, search := [] }.loadDirectory disk select

/-- Goes to a folder that is not the current one. -/
def navigate (disk : Disk) (w : Window) (path : Path) (select : Option Path) : Window :=
  if path = w.browser.currentPath then w
  else w.reopened disk (w.browser.navigate path select) select

/-- Goes to the folder that was left last. -/
def goBack (disk : Disk) (w : Window) : Window :=
  if w.browser.backStack.count = 0 then w else w.reopened disk w.browser.goBack none

/-- Goes to the folder that was last gone back from. -/
def goForward (disk : Disk) (w : Window) : Window :=
  if w.browser.forwardStack.count = 0 then w else w.reopened disk w.browser.goForward none

/-- Goes to the folder above, and selects the one that was left. -/
def openParent (disk : Disk) (w : Window) : Window :=
  if pathIsRoot w.browser.currentPath then w
  else
    let left := copyString pathCapacity (lastName w.browser.currentPath)
    w.navigate disk (buildParentPath w.browser.currentPath pathCapacity) (some left)

/-- Rereads the folder, with the selection kept. -/
def refresh (disk : Disk) (w : Window) : Window :=
  { w with browser := w.browser.loadDirectory w.selectedName }.loadDirectory disk w.selectedName

/-- Opens a folder, or starts a program. -/
def openEntry (disk : Disk) (w : Window) (row : ℤ) : Window :=
  if row < 0 ∨ w.visible.length ≤ row.toNat then w
  else
    let entry := w.entries (w.visible.getD row.toNat 0)
    let target := buildChildPath w.browser.currentPath entry.dir.name pathCapacity
    if entry.dir.type = .directory then w.navigate disk target none
    else
      let opened := FileBrowser.openEntry w.browser w.entries w.visible row disk.spawn
      { w with status := opened.message.getD w.status }

/-- What the user does: Alt and an arrow, a click on the path, F5, a change of the search text, a
row selected or activated, Escape. -/
inductive Action
  | navigate (path : Path)
  | goBack
  | goForward
  | openParent
  | refresh
  | search (text : Path)
  | select (row : ℕ)
  | openEntry (row : ℤ)
  | escape
deriving DecidableEq, Repr

/-- What an action of the user does. -/
def act (disk : Disk) (w : Window) : Action → Window
  | .navigate path => w.navigate disk path none
  | .goBack => w.goBack disk
  | .goForward => w.goForward disk
  | .openParent => w.openParent disk
  | .refresh => w.refresh disk
  | .search text => { w with search := text }.applyFilter none
  | .select row =>
    if row < w.visible.length then { w with selected := row }.showStatus else w
  | .openEntry row => w.openEntry disk row
  -- Without a search text Escape closes the window.
  | .escape => if w.search ≠ [] then { w with search := [] }.applyFilter none else w

/-- The window before its first folder is loaded. -/
def created : Window :=
  { browser := .start, found := none
    entries := fun _ => ⟨⟨[], .regular, List.not_mem_nil⟩, false, 0⟩, count := 0
    search := [], visible := [], selected := -1
    backEnabled := true, forwardEnabled := true, upEnabled := true, status := ⟨[], false⟩ }

/-- The window when it is shown. -/
def opened (disk : Disk) : Window :=
  { created with browser := Browser.start.loadDirectory none }.loadDirectory disk none

variable {w : Window} {keep : Path}

/-! ## The rows -/

/-- The entry's name contains the search text. -/
def shows (w : Window) (i : ℕ) : Bool := containsFolded (w.entries i).dir.name w.search

/-- The name that is selected: the one to keep when it is shown, else the first. -/
def kept (keep : Path) (names : List Path) : Option Path :=
  if keep ≠ [] ∧ keep ∈ names then some keep else names.head?

/-- The loop after `n` entries: the rows that are shown, and the first that has the name to keep. -/
structure Filtered (w : Window) (keep : Path) (n : ℕ) (rows : List ℕ × ℤ) : Prop where
  visible : rows.1 = (List.range n).filter w.shows
  chosen : rows.2 = -1 ∧ (keep ≠ [] → ∀ i ∈ rows.1, (w.entries i).dir.name ≠ keep) ∨
    keep ≠ [] ∧ ∃ k : ℕ, rows.2 = k ∧ ∃ i, rows.1[k]? = some i ∧ (w.entries i).dir.name = keep

/-- A pass over an entry adds it if it is kept. -/
theorem filterEntry_filtered {n : ℕ} {rows : List ℕ × ℤ} (h : Filtered w keep n rows) :
    Filtered w keep (n + 1) (w.filterEntry keep n rows) := by
  have hrange : (List.range (n + 1)).filter w.shows =
      (List.range n).filter w.shows ++ if w.shows n then [n] else [] := by
    rw [List.range_succ, List.filter_append, List.filter_singleton]
    cases w.shows n <;> rfl
  unfold filterEntry
  dsimp only
  split
  · next hhidden =>
    have hshows : w.shows n = false := hhidden
    refine ⟨?_, h.chosen⟩
    rw [hrange, hshows, h.visible]
    simp
  · next hvisible =>
    have hshows : w.shows n = true := Bool.eq_true_of_not_eq_false hvisible
    refine ⟨?_, ?_⟩
    · rw [hrange, hshows, h.visible]
      simp
    · rcases h.chosen with ⟨hnone, hall⟩ | ⟨hkeep, k, hk, i, hi, hname⟩
      · split
        · next hchosen =>
          -- The new row is the first of this name.
          refine .inr ⟨hchosen.1, rows.1.length, rfl, n, ?_, hchosen.2.2⟩
          simp
        · next hother =>
          refine .inl ⟨hnone, fun hkeep i hi => ?_⟩
          rcases List.mem_append.1 hi with hi | hi
          · exact hall hkeep i hi
          · rw [List.mem_singleton.1 hi]
            exact fun heq => hother ⟨hkeep, by omega, heq⟩
      · have hnot : ¬(keep ≠ [] ∧ rows.2 < 0 ∧ (w.entries n).dir.name = keep) := by
          rintro ⟨-, hneg, -⟩
          omega
        rw [if_neg hnot]
        refine .inr ⟨hkeep, k, hk, i, ?_, hname⟩
        rw [List.getElem?_append_left (List.getElem?_eq_some_iff.1 hi).1]
        exact hi

/-- The loop's rows are those of all entries that are kept. -/
theorem upTo_filtered : Filtered w keep w.count (upTo 0 w.count (w.filterEntry keep) ([], -1)) := by
  have hstart : Filtered w keep 0 ([], -1) :=
    ⟨rfl, .inl ⟨rfl, fun _ i hi => absurd hi List.not_mem_nil⟩⟩
  exact upTo_rule (Filtered w keep) (Nat.zero_le _) hstart fun i rows _ _ h =>
    filterEntry_filtered h

/-- What the filter leaves: the rows that are shown, and one of them selected if there are any. -/
theorem applyFilter_rows (w : Window) (select : Option Path) :
    (w.applyFilter select).visible = (List.range w.count).filter w.shows ∧
    ((w.applyFilter select).visible = [] ∧ (w.applyFilter select).selected = -1 ∨
      ∃ k : ℕ, (w.applyFilter select).selected = k ∧ k < (w.applyFilter select).visible.length) ∧
    (w.applyFilter select).selectedName =
      kept (copyString pathCapacity ((select.elim w.selectedName some).getD []))
        (w.applyFilter select).names := by
  generalize hkeep : copyString pathCapacity ((select.elim w.selectedName some).getD []) = keep
  have hfiltered := @upTo_filtered w keep
  generalize hrows : upTo 0 w.count (w.filterEntry keep) ([], -1) = rows at hfiltered
  obtain ⟨visible, selected⟩ := rows
  obtain ⟨hvisible, hchosen⟩ := hfiltered
  dsimp only at hvisible hchosen
  -- What the loop gave is what the window then has, but for a first row selected in the end.
  have hwindow : w.applyFilter select = Window.showStatus { w with
      visible := visible
      selected := if selected < 0 ∧ 0 < visible.length then 0 else selected } := by
    unfold applyFilter
    dsimp only
    rw [hkeep, hrows]
  rw [hwindow]
  refine ⟨hvisible, ?_⟩
  have hmem : keep ∈ visible.map (fun i => (w.entries i).dir.name) ↔
      ∃ i ∈ visible, (w.entries i).dir.name = keep := List.mem_map
  unfold selectedName names showStatus kept
  dsimp only
  rcases hchosen with ⟨rfl, hall⟩ | ⟨hne, k, rfl, i, hi, hname⟩
  · have hnot : ¬(keep ≠ [] ∧ keep ∈ visible.map fun i => (w.entries i).dir.name) := by
      rintro ⟨hne, hin⟩
      obtain ⟨i, hi, hname⟩ := hmem.1 hin
      exact hall hne i hi hname
    rw [if_neg hnot]
    cases visible with
    | nil => simp
    | cons i visible =>
      simp only [List.length_cons]
      exact ⟨.inr ⟨0, rfl, Nat.succ_pos _⟩, rfl⟩
  · have hlt : k < visible.length := (List.getElem?_eq_some_iff.1 hi).1
    have hin : keep ≠ [] ∧ keep ∈ visible.map fun i => (w.entries i).dir.name :=
      ⟨hne, hmem.2 ⟨i, List.mem_of_getElem? hi, hname⟩⟩
    have hsel : ¬((k : ℤ) < 0 ∧ 0 < visible.length) := by omega
    have hpos : ¬(k : ℤ) < 0 := by omega
    rw [if_neg hsel, if_pos hin, if_neg hpos, Int.toNat_natCast, List.getElem?_map, hi]
    exact ⟨.inr ⟨k, rfl, hlt⟩, congrArg some hname⟩

/-! ## What holds of the window -/

/-- The window shows its folder: what some reading of it gave, in order, and the rows that the
search text leaves, one of them selected if there are any. The buttons are those that lead
somewhere. -/
structure Lists (disks : List Disk) (w : Window) : Prop where
  history : ∃ h, Represents w.browser h
  read : ∃ disk ∈ disks, w.found = disk.readdir w.browser.currentPath
  entries : ((slice w.entries 0 w.count).map BrowserEntry.dir).Perm (listed w.found)
  ordered : (slice w.entries 0 w.count).Pairwise fun x y => entryBefore y x = false
  programs : ∀ entry ∈ slice w.entries 0 w.count, entry.executable =
    (decide (entry.dir.type = .regular) && isLaunchableName entry.dir.name)
  visible : w.visible = (List.range w.count).filter w.shows
  selected : w.visible = [] ∧ w.selected = -1 ∨
    ∃ k : ℕ, w.selected = k ∧ k < w.visible.length
  enabled : w.backEnabled = decide (0 < w.browser.backStack.count) ∧
    w.forwardEnabled = decide (0 < w.browser.forwardStack.count) ∧
    w.upEnabled = !pathIsRoot w.browser.currentPath

variable {disk : Disk} {disks : List Disk}

/-- The filter keeps what is listed. -/
theorem Lists.applyFilter (h : w.Lists disks) (text : Path) (select : Option Path) :
    ({ w with search := text }.applyFilter select).Lists disks := by
  obtain ⟨hvisible, hselected, -⟩ := applyFilter_rows { w with search := text } select
  exact ⟨h.history, h.read, h.entries, h.ordered, h.programs, hvisible, hselected, h.enabled⟩

/-- Writing the status line anew keeps the list. -/
theorem Lists.showStatus (h : w.Lists disks) {selected : ℤ}
    (hselected : ∃ k : ℕ, selected = k ∧ k < w.visible.length) :
    ({ w with selected := selected }.showStatus).Lists disks :=
  ⟨h.history, h.read, h.entries, h.ordered, h.programs, h.visible, .inr hselected, h.enabled⟩

/-- A folder has at most as many entries as can be read. -/
theorem length_listed_le (disk : Disk) (path : Path) :
    (listed (disk.readdir path)).length ≤ kMaxEntries := by
  unfold listed
  refine (List.length_filter_le _ _).trans ?_
  cases hread : disk.readdir path with
  | none => exact Nat.zero_le _
  | some dirs => exact (disk.readdir_fits path dirs hread).1

/-- An array that a list was stored in holds the list. -/
theorem slice_getD (l : List BrowserEntry) (entries : ℕ → BrowserEntry) :
    slice (fun i => l[i]?.getD (entries i)) 0 l.length = l := by
  apply List.ext_getElem?
  intro i
  by_cases hi : i < l.length
  · rw [getElem?_slice _ _ hi, Nat.zero_add, List.getElem?_eq_getElem hi]
    rfl
  · rw [List.getElem?_eq_none (by rw [length_slice]; omega), List.getElem?_eq_none (by omega)]

/-- The window as it is filled from a folder. -/
def filled (disk : Disk) (w : Window) : Window :=
  let loaded := ((listed (disk.readdir w.browser.currentPath)).take kMaxEntries).map fun dir =>
    (loadEntry w.browser.currentPath disk.stat dir).1
  { w with
    found := disk.readdir w.browser.currentPath
    entries := sortEntries (fun i => loaded[i]?.getD (w.entries i)) loaded.length
    count := loaded.length }

/-- A loaded entry is the directory's, and it is a program by its name. -/
theorem loadEntry_dir (path : Path) (stat : Path → Option ℤ) (dir : DirEntry) :
    (loadEntry path stat dir).1.dir = dir ∧ (loadEntry path stat dir).1.executable =
      (decide (dir.type = .regular) && isLaunchableName dir.name) := by
  unfold loadEntry
  dsimp only
  split <;> exact ⟨rfl, rfl⟩

/-- The entries of a folder that was read: those that are listed, sorted. -/
theorem filled_entries (disk : Disk) (w : Window) :
    ((slice (w.filled disk).entries 0 (w.filled disk).count).map BrowserEntry.dir).Perm
      (listed (w.filled disk).found) ∧
    (slice (w.filled disk).entries 0 (w.filled disk).count).Pairwise
      (fun x y => entryBefore y x = false) ∧
    ∀ entry ∈ slice (w.filled disk).entries 0 (w.filled disk).count, entry.executable =
      (decide (entry.dir.type = .regular) && isLaunchableName entry.dir.name) := by
  generalize hloaded : ((listed (disk.readdir w.browser.currentPath)).take kMaxEntries).map
    (fun dir => (loadEntry w.browser.currentPath disk.stat dir).1) = loaded
  have hdirs : loaded.map BrowserEntry.dir = listed (disk.readdir w.browser.currentPath) := by
    rw [← hloaded, List.take_of_length_le (length_listed_le disk _), List.map_map]
    refine (List.map_congr_left fun dir _ => ?_).trans (List.map_id _)
    exact (loadEntry_dir _ _ dir).1
  have hslice : slice (w.filled disk).entries 0 (w.filled disk).count =
      sorted entryBefore loaded := by
    unfold filled
    dsimp only
    rw [hloaded, (slice_sortEntries _ _).1, slice_getD]
  obtain ⟨hperm, hordered, -⟩ := @arranged_sorted _ _ entryBefore_weak loaded
  rw [hslice]
  refine ⟨?_, hordered, fun entry hentry => ?_⟩
  · show (List.map BrowserEntry.dir _).Perm (listed (disk.readdir w.browser.currentPath))
    rw [← hdirs]
    exact hperm.map _
  · have hin := hperm.mem_iff.1 hentry
    rw [← hloaded, List.mem_map] at hin
    obtain ⟨dir, -, rfl⟩ := hin
    rw [(loadEntry_dir _ _ dir).1, (loadEntry_dir _ _ dir).2]

/-- Copying into a buffer of the same size again changes nothing. -/
theorem copyString_copyString (capacity : ℕ) (text : Path) :
    copyString capacity (copyString capacity text) = copyString capacity text := by
  unfold copyString
  rw [List.take_take, Nat.min_self]

/-- What a folder that is read leaves: its entries in order, and `select` kept. -/
theorem loadDirectory_lists (w : Window) (history : ∃ h, Represents w.browser h)
    (hdisk : disk ∈ disks) (select : Option Path) :
    (w.loadDirectory disk select).Lists disks ∧
    (w.loadDirectory disk select).selectedName =
      kept ((select.map (copyString pathCapacity)).getD [])
        (w.loadDirectory disk select).names := by
  generalize hkeep : (select.map (copyString pathCapacity)).getD [] = keep
  obtain ⟨hentries, hordered, hprograms⟩ := filled_entries disk w
  obtain ⟨hvisible, hselected, hname⟩ := applyFilter_rows (w.filled disk) (some keep)
  have hcopied : copyString pathCapacity keep = keep := by
    rw [← hkeep]
    cases select with
    | none => rfl
    | some path => exact copyString_copyString pathCapacity path
  rw [Option.elim_some, Option.getD_some, hcopied] at hname
  -- After the filter only the status line and the buttons change.
  have hload : w.loadDirectory disk select = { (w.filled disk).applyFilter (some keep) with
      status := (w.loadDirectory disk select).status
      backEnabled := decide (0 < w.browser.backStack.count)
      forwardEnabled := decide (0 < w.browser.forwardStack.count)
      upEnabled := !pathIsRoot w.browser.currentPath } := by
    unfold loadDirectory
    rw [hkeep]
    dsimp only
    split <;> rfl
  rw [hload]
  refine ⟨⟨history, ⟨disk, hdisk, rfl⟩, hentries, hordered, hprograms, hvisible, hselected,
    ⟨rfl, rfl, rfl⟩⟩, ?_⟩
  exact hname

/-- Loading a folder leaves the history. -/
theorem represents_load {s : Browser} {h : History Path kHistory} (hs : Represents s h)
    (select : Option Path) : Represents (s.loadDirectory select) h :=
  ⟨hs.current, hs.back, hs.forward, hs.fits⟩

/-- Going to a folder lists it. -/
theorem Lists.navigate (h : w.Lists disks) (hdisk : disk ∈ disks) (path : Path)
    (select : Option Path) : (w.navigate disk path select).Lists disks := by
  unfold Window.navigate
  split
  · exact h
  · obtain ⟨_, hs⟩ := h.history
    exact (loadDirectory_lists _ (step_represents hs (.navigate path select)) hdisk select).1

/-- Opening an entry lists its folder, or leaves the list. -/
theorem Lists.openEntry (h : w.Lists disks) (hdisk : disk ∈ disks) (row : ℤ) :
    (w.openEntry disk row).Lists disks := by
  unfold Window.openEntry
  split
  · exact h
  · dsimp only
    split
    · exact h.navigate hdisk _ none
    · exact ⟨h.history, h.read, h.entries, h.ordered, h.programs, h.visible, h.selected, h.enabled⟩

/-- Whatever the user does keeps the window right. -/
theorem Lists.act (h : w.Lists disks) (hdisk : disk ∈ disks) (a : Action) :
    (w.act disk a).Lists disks := by
  obtain ⟨_, hs⟩ := h.history
  cases a with
  | navigate path => exact h.navigate hdisk path none
  | goBack =>
    show (w.goBack disk).Lists disks
    unfold Window.goBack
    split
    · exact h
    · exact (loadDirectory_lists _ (step_represents hs .goBack) hdisk none).1
  | goForward =>
    show (w.goForward disk).Lists disks
    unfold Window.goForward
    split
    · exact h
    · exact (loadDirectory_lists _ (step_represents hs .goForward) hdisk none).1
  | openParent =>
    show (w.openParent disk).Lists disks
    unfold Window.openParent
    split
    · exact h
    · exact h.navigate hdisk _ _
  | refresh => exact (loadDirectory_lists _ ⟨_, represents_load hs _⟩ hdisk _).1
  | search text => exact h.applyFilter text none
  | select row =>
    show (if row < w.visible.length then _ else w).Lists disks
    split
    · next hrow => exact h.showStatus ⟨row, rfl, hrow⟩
    · exact h
  | openEntry row => exact h.openEntry hdisk row
  | escape =>
    show (if w.search ≠ [] then _ else w).Lists disks
    split
    · exact h.applyFilter [] none
    · exact h

/-- An event, with what the kernel answers while it is handled. -/
abbrev Event := Disk × Action

/-- What an action does, with what the kernel answers meanwhile. -/
def actEvent (w : Window) (event : Event) : Window := w.act event.1 event.2

/-- The window after events. -/
def run (disk : Disk) (events : List Event) : Window := events.foldl actEvent (opened disk)

instance (path : Path) : Decidable (Fits path) := inferInstanceAs (Decidable (_ < _))

end Window

end IUserApps.FileBrowser
