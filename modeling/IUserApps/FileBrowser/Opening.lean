import IUserApps.FileBrowser.Entries
import IUserApps.FileBrowser.Navigation

/-!
# Opening the entries of a folder

The path of an entry is built in a buffer of `pathCapacity` bytes by `append_text`, which leaves out
what does not fit. The file browser stats that path for the size of a file, opens it when the entry
is a folder and starts it when the entry is a program. `opensExactly_iff` says for which folders and
names it is the path of the entry.
-/

namespace IUserApps.FileBrowser

/-- What `append_text` leaves in a buffer of this capacity that holds `buffer`. -/
def appendText (capacity : ℕ) (buffer text : Path) : Path :=
  buffer ++ text.take (capacity - 1 - buffer.length)

/-- The path of an entry of a folder, as its buffer holds it. -/
def buildChildPath (base name : Path) (outputSize : ℕ) : Path :=
  let output := appendText outputSize [] base
  let output := if pathIsRoot base then output else appendText outputSize output [slash]
  appendText outputSize output name

/-- Files without a dot in the name are programs. -/
def isLaunchableName (name : Path) : Bool := decide (name ≠ [] ∧ (0x2e : Byte) ∉ name)

/-- What `load_directory` keeps of an entry of the current folder, and the paths that it stats for
it. -/
def loadEntry (currentPath : Path) (stat : Path → Option ℤ) (dir : DirEntry) :
    BrowserEntry × List Path :=
  let executable := decide (dir.type = .regular) && isLaunchableName dir.name
  if dir.type = .regular then
    let path := buildChildPath currentPath dir.name pathCapacity
    (⟨dir, executable, ((stat path).map u64).getD 0⟩, [path])
  else (⟨dir, executable, 0⟩, [])

/-- The size of the buffer for the message. -/
def messageCapacity : ℕ := 160

/-- The message that is shown, and whether it is an error. -/
structure Message where
  text : Path
  isError : Bool
deriving DecidableEq

/-- A message as its buffer holds it. -/
def setMessage (text : Path) (error : Bool) : Message := ⟨copyString messageCapacity text, error⟩

/-- What opening an entry leaves: the file browser, the paths that were started, the message. -/
structure Opened where
  browser : Browser
  spawned : List Path
  message : Option Message

/-- Opens the entry of a row, with the outcome of `spawn` for each path. -/
def openEntry (s : Browser) (entries : ℕ → BrowserEntry) (visible : List ℕ) (row : ℤ)
    (spawn : Path → Bool) : Opened :=
  if row < 0 ∨ visible.length ≤ row.toNat then ⟨s, [], none⟩
  else
    let entry := entries (visible.getD row.toNat 0)
    let target := buildChildPath s.currentPath entry.dir.name pathCapacity
    if entry.dir.type = .directory then ⟨s.navigate target none, [], none⟩
    else if entry.executable = false then
      ⟨s, [], some (setMessage (ascii "Not a program") true)⟩
    else if spawn target = false then
      ⟨s, [target], some (setMessage (ascii "Could not start it") true)⟩
    else
      let line := appendText messageCapacity [] (ascii "Started ")
      let line := appendText messageCapacity line entry.dir.name
      ⟨s, [target], some (setMessage line false)⟩

/-! ## Paths of entries -/

/-- The path of a folder: absolute, without a doubled or a trailing slash, in a buffer. -/
structure IsFolder (path : Path) : Prop where
  absolute : path.head? = some slash
  single : ¬[slash, slash] <:+: path
  closed : path = [slash] ∨ path.getLast? ≠ some slash
  fits : Fits path

/-- The path of a folder is not empty. -/
theorem IsFolder.ne_nil {path : Path} (h : IsFolder path) : path ≠ [] := by
  rintro rfl
  exact absurd h.absolute (by decide)

/-- Only the root's path is a single slash. -/
theorem IsFolder.one_lt_length {path : Path} (h : IsFolder path) (hroot : path ≠ [slash]) :
    1 < path.length := by
  obtain ⟨rest, rfl⟩ := List.head?_eq_some_iff.1 h.absolute
  cases rest with
  | nil => exact absurd rfl hroot
  | cons c rest => simp

/-- A name that a directory entry can have. -/
structure IsName (name : Path) : Prop where
  no_nul : (0 : Byte) ∉ name
  no_slash : slash ∉ name
  length_le : name.length ≤ 255

/-- What comes before the slash of an entry's path. -/
def folderPrefix (folder : Path) : Path := if folder = [slash] then [] else folder

/-- The path of an entry. -/
def childPath (folder name : Path) : Path := folderPrefix folder ++ slash :: name

/-- A text that fits an empty buffer is copied whole. -/
theorem appendText_nil_of_fits {capacity : ℕ} {text : Path} (h : text.length < capacity) :
    appendText capacity [] text = text := copyString_of_lt h

/-- Two texts appended one after the other are cut as one. -/
theorem appendText_appendText (capacity : ℕ) (buffer text text' : Path)
    (h : buffer.length < capacity) :
    appendText capacity (appendText capacity buffer text) text' =
      appendText capacity buffer (text ++ text') := by
  unfold appendText
  rw [List.take_append, List.append_assoc, List.length_append, List.length_take]
  congr 3
  omega

/-- `build_child_path` cuts the path of the entry off. -/
theorem buildChildPath_eq (folder name : Path) :
    buildChildPath folder name pathCapacity = copyString pathCapacity (childPath folder name) := by
  have hcut : ∀ text, appendText pathCapacity [] text = copyString pathCapacity text :=
    fun _ => rfl
  have hpos : ([] : Path).length < pathCapacity := by decide
  unfold buildChildPath childPath folderPrefix pathIsRoot
  by_cases hroot : folder = [slash]
  · simp only [hroot, decide_true, if_true]
    rw [appendText_appendText _ _ _ _ hpos, hcut]
    rfl
  · simp only [hroot, decide_false, Bool.false_eq_true, if_false]
    rw [appendText_appendText _ _ _ _ hpos, appendText_appendText _ _ _ _ hpos, hcut,
      List.append_assoc]
    rfl

/-! ## Parents -/

/-- A last byte that is kept ends the loop. -/
theorem stripWhile_of_last {p : Byte → Bool} {output : Path} (h : p (output.getLastD 0) = false)
    (n : ℕ) : stripWhile p n output = output := by
  cases n with
  | zero => rfl
  | succ n =>
    unfold stripWhile
    rw [h]
    exact if_neg fun hstrip => absurd hstrip.2 (by decide)

/-- Bytes that satisfy the condition go off the end of a path that something is left of. -/
theorem stripWhile_append {p : Byte → Bool} {output : Path} (hne : output ≠ []) (text : Path)
    (h : ∀ c ∈ text, p c = true) (n : ℕ) :
    stripWhile p (n + text.length) (output ++ text) = stripWhile p n output := by
  induction text using List.reverseRecOn with
  | nil => rw [List.append_nil, List.length_nil, Nat.add_zero]
  | append_singleton text c ih =>
    have hpos := List.length_pos_of_ne_nil hne
    have hlen : n + (text ++ [c]).length = n + text.length + 1 := by
      rw [List.length_append, List.length_singleton, Nat.add_assoc]
    have hstrip : 1 < (output ++ text ++ [c]).length ∧ p c = true := by
      refine ⟨?_, h c (List.mem_append_right _ List.mem_cons_self)⟩
      simp only [List.length_append, List.length_singleton]
      omega
    rw [hlen, ← List.append_assoc, stripWhile, List.getLastD_concat, List.dropLast_concat,
      if_pos hstrip]
    exact ih fun d hd => h d (List.mem_append_left _ hd)

/-- The parent of an entry's path is its folder, when the path is not cut and has a name. -/
theorem buildParentPath_childPath {folder name : Path} (hfolder : IsFolder folder)
    (hname : IsName name) (hfits : Fits (childPath folder name)) (hne : name ≠ []) :
    buildParentPath (childPath folder name) pathCapacity = folder := by
  -- The path ends with the name, so there is no slash to strip.
  have hslashes : ∀ n, stripWhile (· = slash) n (childPath folder name) = childPath folder name := by
    refine stripWhile_of_last ?_
    have hlast := List.dropLast_append_getLast hne
    have hc : name.getLast hne ≠ slash := fun h => hname.no_slash (h ▸ List.getLast_mem hne)
    unfold childPath
    rw [← hlast, ← List.cons_append, ← List.append_assoc, List.getLastD_concat]
    exact decide_eq_false hc
  -- Stripping the name stops at the slash before it.
  have hstripped : stripWhile (· ≠ slash) (childPath folder name).length (childPath folder name) =
      folderPrefix folder ++ [slash] := by
    have hbytes : ∀ c ∈ name, decide (c ≠ slash) = true :=
      fun c hc => decide_eq_true fun h => hname.no_slash (h ▸ hc)
    have hsplit : childPath folder name = (folderPrefix folder ++ [slash]) ++ name := by
      unfold childPath
      rw [List.append_assoc, List.singleton_append]
    rw [hsplit, List.length_append, stripWhile_append (by simp) name hbytes]
    refine stripWhile_of_last ?_ _
    rw [List.getLastD_concat]
    decide
  unfold buildParentPath
  simp only
  rw [copyString_of_lt hfits, hslashes, hstripped, List.getLastD_concat, List.dropLast_concat]
  unfold folderPrefix
  -- The slash is dropped too, unless it is the root.
  by_cases hroot : folder = [slash]
  · rw [if_pos hroot, hroot]
    rfl
  · have hpos : 0 < folder.length := List.length_pos_of_ne_nil hfolder.ne_nil
    have hlong : 1 < (folder ++ [slash]).length ∧ slash = slash := by
      rw [List.length_append, List.length_singleton]
      exact ⟨by omega, rfl⟩
    rw [if_neg hroot, if_pos hlong, if_neg hfolder.ne_nil]

/-- Without a name, the path of an entry has another parent than its folder. -/
theorem buildParentPath_trailing {folder : Path} (hfolder : IsFolder folder)
    (hroot : folder ≠ [slash]) (hfits : Fits (childPath folder [])) :
    buildParentPath (childPath folder []) pathCapacity ≠ folder := by
  have hlast : folder.getLastD 0 ≠ slash := by
    have hclosed := hfolder.closed.resolve_left hroot
    rw [List.getLastD_eq_getLast?]
    intro h
    rw [List.getLast?_eq_some_getLast hfolder.ne_nil] at h hclosed
    exact hclosed (congrArg some h)
  have hlong : 1 < folder.length := hfolder.one_lt_length hroot
  have hslashes : stripWhile (· = slash) (childPath folder []).length (childPath folder []) =
      folder := by
    have hsplit : childPath folder [] = folder ++ [slash] := by
      unfold childPath folderPrefix
      rw [if_neg hroot]
    rw [hsplit, List.length_append,
      stripWhile_append hfolder.ne_nil [slash] (fun c hc => decide_eq_true (List.mem_singleton.1 hc))]
    exact stripWhile_of_last (decide_eq_false hlast) _
  -- The folder's last byte goes with the name.
  have hshort : ∀ n, (stripWhile (· ≠ slash) (n + 1) folder).length < folder.length := by
    intro n
    rw [stripWhile, if_pos ⟨hlong, decide_eq_true hlast⟩]
    have := length_stripWhile_le (· ≠ slash) n folder.dropLast
    rw [List.length_dropLast] at this
    omega
  intro heq
  have hlen := congrArg List.length heq
  revert hlen
  unfold buildParentPath
  simp only
  rw [copyString_of_lt hfits, hslashes]
  have hshort' := hshort (folder.length - 1)
  rw [Nat.sub_add_cancel (by omega)] at hshort'
  generalize stripWhile (· ≠ slash) folder.length folder = output at hshort' ⊢
  have hlast := length_dropSlash_le output
  generalize (if 1 < output.length ∧ output.getLastD 0 = slash then output.dropLast else output) =
    output' at hlast ⊢
  split
  · exact Nat.ne_of_lt hlong
  · omega

/-! ## Opening -/

/-- The file browser stats, opens and starts the entries of this name in this folder under their own
path only, or not at all, and the parent of that path is the folder. -/
structure OpensExactly (folder name : Path) : Prop where
  stats : ∀ stat dir, dir.name = name →
    ∀ path ∈ (loadEntry folder stat dir).2, path = childPath folder name
  opens : ∀ (s : Browser) entries (visible : List ℕ) row spawn, s.currentPath = folder →
    (entries (visible.getD row.toNat 0)).dir.name = name →
    let opened := openEntry s entries visible row spawn
    (∀ path ∈ opened.spawned, path = childPath folder name) ∧
      (opened.browser = s ∨ opened.browser.currentPath = childPath folder name)
  parent : buildParentPath (buildChildPath folder name pathCapacity) pathCapacity = folder

/-- Whatever an entry is, opening it starts or opens the path that was built, or nothing. -/
theorem openEntry_paths (s : Browser) (entries : ℕ → BrowserEntry) (visible : List ℕ) (row : ℤ)
    (spawn : Path → Bool) :
    let opened := openEntry s entries visible row spawn
    let target := buildChildPath s.currentPath (entries (visible.getD row.toNat 0)).dir.name
      pathCapacity
    (∀ path ∈ opened.spawned, path = target) ∧
      (opened.browser = s ∨ opened.browser = s.navigate target none) := by
  intro opened target
  have hnone : ∀ path ∈ ([] : List Path), path = target := fun _ h => absurd h List.not_mem_nil
  have hone : ∀ path ∈ [target], path = target := fun _ h => List.mem_singleton.1 h
  unfold opened openEntry
  split
  · exact ⟨hnone, Or.inl rfl⟩
  dsimp only
  split
  · exact ⟨hnone, Or.inr rfl⟩
  split
  · exact ⟨hnone, Or.inl rfl⟩
  split
  · exact ⟨hone, Or.inl rfl⟩
  · exact ⟨hone, Or.inl rfl⟩

/-- Going to a path that fits, the browser is there. -/
theorem navigate_currentPath (s : Browser) {path : Path} (hfits : Fits path)
    (select : Option Path) : (s.navigate path select).currentPath = path := by
  unfold Browser.navigate
  split
  · next h => exact h.symm
  · exact copyString_of_lt hfits

/-- Any folder and any name: the entries of this name are opened under their own path, and the
folder is its parent, exactly when that path fits into its buffer and, but for the root, the name is
not empty. -/
theorem opensExactly_iff {folder name : Path} (hfolder : IsFolder folder) (hname : IsName name) :
    OpensExactly folder name ↔
      (childPath folder name).length < pathCapacity ∧ (name ≠ [] ∨ folder = [slash]) := by
  have hchild := buildChildPath_eq folder name
  constructor
  · intro h
    have hfits : Fits (childPath folder name) := by
      have hstat := h.stats (fun _ => none) ⟨name, .regular, hname.no_nul⟩ rfl _ List.mem_cons_self
      rw [← hstat]
      unfold Fits
      rw [hchild]
      exact length_copyString_lt (by decide) _
    refine ⟨hfits, ?_⟩
    -- An empty name in another folder than the root: the parent is the folder's parent.
    by_contra hcon
    obtain ⟨hempty, hroot⟩ := not_or.1 hcon
    have hparent := h.parent
    rw [hchild, copyString_of_lt hfits, not_ne_iff.1 hempty] at hparent
    rw [not_ne_iff.1 hempty] at hfits
    exact buildParentPath_trailing hfolder hroot hfits hparent
  · rintro ⟨hfits, hnonempty⟩
    rw [copyString_of_lt hfits] at hchild
    refine ⟨?_, ?_, ?_⟩
    · intro stat dir hdir path hpath
      unfold loadEntry at hpath
      rw [hdir, hchild] at hpath
      split at hpath
      · exact List.mem_singleton.1 hpath
      · exact absurd hpath List.not_mem_nil
    · intro s entries visible row spawn hcurrent hentry
      obtain ⟨hspawned, hbrowser⟩ := openEntry_paths s entries visible row spawn
      rw [hcurrent, hentry, hchild] at hspawned hbrowser
      refine ⟨hspawned, hbrowser.imp_right fun hnavigate => ?_⟩
      rw [hnavigate]
      exact navigate_currentPath s hfits none
    · rw [hchild]
      by_cases hne : name = []
      · rw [hne, hnonempty.resolve_left (not_not.2 hne)]
        rfl
      · exact buildParentPath_childPath hfolder hname hfits hne

/-- `/aaa…`, of 251 bytes. -/
def longFolder : Path := slash :: List.replicate 250 0x61

/-- Opening the program `calculator` of the folder `/aaa…` starts the path `/aaa…/cal`. -/
theorem opens_cutOff :
    IsFolder longFolder ∧ IsName (ascii "calculator") ∧
      (openEntry ⟨longFolder, .empty, .empty, []⟩
          (fun _ => ⟨⟨ascii "calculator", .regular, by decide⟩, true, 0⟩) [0] 0
          fun _ => true).spawned =
        [longFolder ++ ascii "/cal"] ∧
      ¬OpensExactly longFolder (ascii "calculator") := by
  have hfolder : IsFolder longFolder :=
    ⟨by decide, by decide +kernel, by decide +kernel, by unfold Fits; decide +kernel⟩
  have hname : IsName (ascii "calculator") := ⟨by decide, by decide, by decide⟩
  have hcut : buildChildPath longFolder (ascii "calculator") pathCapacity ≠
      childPath longFolder (ascii "calculator") := by decide +kernel
  refine ⟨hfolder, hname, by decide +kernel, fun h => hcut ?_⟩
  exact h.stats (fun _ => none) ⟨ascii "calculator", .regular, hname.no_nul⟩ rfl _
    List.mem_cons_self

/-- `/bin/login` fits. -/
theorem opensExactly_iff_bin :
    IsFolder startPath ∧ IsName (ascii "login") ∧ OpensExactly startPath (ascii "login") :=
  have hfolder : IsFolder startPath := ⟨by decide, by decide, by decide, by unfold Fits; decide⟩
  have hname : IsName (ascii "login") := ⟨by decide, by decide, by decide⟩
  ⟨hfolder, hname, (opensExactly_iff hfolder hname).2 ⟨by decide, Or.inl (by decide)⟩⟩

end IUserApps.FileBrowser
