import IUserApps.FileBrowser.Paths
import IUserApps.Histories

/-!
# Back and forward

The history of the file browser: two stacks of paths in arrays of `kHistory`, of which `push` shifts
out the oldest when one is full. `Represents` relates it to a history as such, which the four
operations follow. The two stacks together never hold more than `kHistory` paths, so going back and
forward never shifts anything out.

The search text, the focus and what is shown of a folder are left out; `loaded` is the folders that
`load_directory` was called for, each with the entry to select.
-/

namespace IUserApps.FileBrowser

open Histories

/-- The folders remembered at most, on each side. -/
def kHistory : ℕ := 32

/-- The size of the buffers for paths. -/
def pathCapacity : ℕ := 256

/-- An array of `kHistory` paths and how many of them are in use. -/
structure Stack where
  entries : ℕ → Path
  count : ℕ

/-- A stack without paths. -/
def Stack.empty : Stack := ⟨fun _ => [], 0⟩

/-- Moves every path of the array down by a place, the first one out. -/
def shiftOut (entries : ℕ → Path) : ℕ → Path :=
  (List.range' 1 (kHistory - 1)).foldl
    (fun entries i => Function.update entries (i - 1) (copyString pathCapacity (entries i))) entries

/-- A stack with one more path; a full one loses its oldest. -/
def push (stack : Stack) (path : Path) : Stack :=
  let stack := if stack.count = kHistory then ⟨shiftOut stack.entries, stack.count - 1⟩ else stack
  ⟨Function.update stack.entries stack.count (copyString pathCapacity path), stack.count + 1⟩

/-- The path on top, and the stack without it. -/
def pop (stack : Stack) : Path × Stack :=
  (stack.entries (stack.count - 1), { stack with count := stack.count - 1 })

/-- What the file browser keeps of the folders it opened. -/
structure Browser where
  currentPath : Path
  backStack : Stack
  forwardStack : Stack
  loaded : List (Path × Option Path)

/-- `"/bin"`. -/
def startPath : Path := [0x2f, 0x62, 0x69, 0x6e]

/-- Before the first folder is opened. -/
def Browser.start : Browser := ⟨startPath, .empty, .empty, []⟩

namespace Browser

/-- Rereads the current folder. -/
def loadDirectory (s : Browser) (select : Option Path) : Browser :=
  { s with loaded := s.loaded ++ [(s.currentPath, select.map (copyString pathCapacity))] }

/-- Opens a folder, remembering where we were for Back. -/
def navigate (s : Browser) (path : Path) (select : Option Path) : Browser :=
  if path = s.currentPath then s
  else
    let s := { s with
      backStack := push s.backStack s.currentPath
      forwardStack := { s.forwardStack with count := 0 }
      currentPath := copyString pathCapacity path }
    s.loadDirectory select

/-- Goes to the folder that was left last. -/
def goBack (s : Browser) : Browser :=
  if s.backStack.count = 0 then s
  else
    let (path, backStack) := pop s.backStack
    let s := { s with
      forwardStack := push s.forwardStack s.currentPath
      backStack := backStack
      currentPath := copyString pathCapacity path }
    s.loadDirectory none

/-- Goes to the folder that was last gone back from. -/
def goForward (s : Browser) : Browser :=
  if s.forwardStack.count = 0 then s
  else
    let (path, forwardStack) := pop s.forwardStack
    let s := { s with
      backStack := push s.backStack s.currentPath
      forwardStack := forwardStack
      currentPath := copyString pathCapacity path }
    s.loadDirectory none

/-- Goes to the folder above, and selects the one that was left. -/
def openParent (s : Browser) : Browser :=
  if pathIsRoot s.currentPath then s
  else
    let left := copyString pathCapacity (lastName s.currentPath)
    s.navigate (buildParentPath s.currentPath pathCapacity) (some left)

end Browser

/-- What the user does. -/
inductive Op
  | navigate (path : Path) (select : Option Path)
  | goBack
  | goForward
  | openParent
deriving DecidableEq, Repr

/-- What an operation of the user does. -/
def step (s : Browser) : Op → Browser
  | .navigate path select => s.navigate path select
  | .goBack => s.goBack
  | .goForward => s.goForward
  | .openParent => s.openParent

/-! ## The stacks -/

/-- The first `n` paths of an array, the last one first. -/
def topFirst (entries : ℕ → Path) : ℕ → List Path
  | 0 => []
  | n + 1 => entries n :: topFirst entries n

/-- The paths of a stack from its top on. -/
def Stack.paths (stack : Stack) : List Path := topFirst stack.entries stack.count

/-- They are `n` paths. -/
@[simp] theorem length_topFirst (entries : ℕ → Path) (n : ℕ) :
    (topFirst entries n).length = n := by
  induction n with
  | zero => rfl
  | succ n ih => rw [topFirst, List.length_cons, ih]

/-- A stack has as many paths as it counts. -/
@[simp] theorem Stack.length_paths (stack : Stack) : stack.paths.length = stack.count :=
  length_topFirst _ _

/-- Only the first `n` paths matter. -/
theorem topFirst_congr {entries entries' : ℕ → Path} {n : ℕ}
    (h : ∀ i, i < n → entries i = entries' i) : topFirst entries n = topFirst entries' n := by
  induction n with
  | zero => rfl
  | succ n ih =>
    rw [topFirst, topFirst, h n (Nat.lt_succ_self n), ih fun i hi => h i (by omega)]

/-- Without its first path, an array holds all but the last of what it held. -/
theorem topFirst_succ (entries : ℕ → Path) (n : ℕ) :
    topFirst (fun i => entries (i + 1)) n = (topFirst entries (n + 1)).dropLast := by
  induction n with
  | zero => rfl
  | succ n ih =>
    have hne : topFirst entries (n + 1) ≠ [] := by
      rw [topFirst]
      exact List.cons_ne_nil _ _
    calc topFirst (fun i => entries (i + 1)) (n + 1)
        = entries (n + 1) :: topFirst (fun i => entries (i + 1)) n := rfl
      _ = entries (n + 1) :: (topFirst entries (n + 1)).dropLast := by rw [ih]
      _ = (entries (n + 1) :: topFirst entries (n + 1)).dropLast :=
        (List.dropLast_cons_of_ne_nil hne).symm
      _ = (topFirst entries (n + 2)).dropLast := rfl

/-- After `k` passes of the loop of `push` the first `k` paths are those from the second on. -/
theorem shiftOut_passes (entries : ℕ → Path) (k i : ℕ) :
    (List.range' 1 k).foldl
        (fun entries i => Function.update entries (i - 1) (copyString pathCapacity (entries i)))
        entries i =
      if i < k then copyString pathCapacity (entries (i + 1)) else entries i := by
  induction k generalizing i with
  | zero => rfl
  | succ k ih =>
    rw [List.range'_1_concat, List.foldl_append, List.foldl_cons, List.foldl_nil,
      Function.update_apply, ih]
    -- The last pass copies a path that no pass before it has written over.
    by_cases hik : i = 1 + k - 1
    · have hk : ¬1 + k < k := by omega
      have hi : i + 1 = 1 + k := by omega
      rw [if_pos hik, if_neg hk, if_pos (by omega), hi]
    · rw [if_neg hik, ih]
      by_cases hi : i < k
      · rw [if_pos hi, if_pos (by omega)]
      · rw [if_neg hi, if_neg (by omega)]

/-- A path is among them if it stands at one of the first `n` places. -/
theorem mem_topFirst {entries : ℕ → Path} {n : ℕ} {path : Path} :
    path ∈ topFirst entries n ↔ ∃ i, i < n ∧ entries i = path := by
  induction n with
  | zero => simp [topFirst]
  | succ n ih =>
    rw [topFirst, List.mem_cons, ih]
    constructor
    · rintro (rfl | ⟨i, hi, rfl⟩)
      · exact ⟨n, Nat.lt_succ_self n, rfl⟩
      · exact ⟨i, by omega, rfl⟩
    · rintro ⟨i, hi, rfl⟩
      rcases Nat.lt_succ_iff_lt_or_eq.1 hi with hi | rfl
      · exact Or.inr ⟨i, hi, rfl⟩
      · exact Or.inl rfl

/-- The path fits into a buffer, its NUL included. -/
def Fits (path : Path) : Prop := path.length < pathCapacity

/-- What is copied into a buffer for paths fits one. -/
theorem fits_copyString (path : Path) : Fits (copyString pathCapacity path) :=
  length_copyString_lt (by decide) path

/-- What `push` does to the paths of a stack: the oldest one goes when there are `kHistory`. -/
theorem push_paths {stack : Stack}
    (hfits : ∀ path ∈ stack.paths, Fits path) {path : Path} (hpath : Fits path) :
    (push stack path).paths = History.pushed kHistory path stack.paths := by
  have hupdate : ∀ (entries : ℕ → Path) (n : ℕ),
      topFirst (Function.update entries n (copyString pathCapacity path)) (n + 1) =
        path :: topFirst entries n := by
    intro entries n
    rw [topFirst, Function.update_self, copyString_of_lt hpath]
    congr 1
    refine topFirst_congr fun i hi => ?_
    rw [Function.update_of_ne (by omega)]
  unfold push History.pushed
  rw [Stack.length_paths]
  by_cases hfull : stack.count = kHistory
  · rw [if_pos hfull, if_pos hfull]
    show topFirst (Function.update (shiftOut stack.entries) (stack.count - 1) _) _ = _
    rw [hupdate]
    congr 1
    -- Every path that moves down is copied, which cuts none that fits.
    have hpos : stack.count = kHistory - 1 + 1 := hfull
    have hshift : topFirst (shiftOut stack.entries) (kHistory - 1) =
        topFirst (fun i => stack.entries (i + 1)) (kHistory - 1) := by
      refine topFirst_congr fun i hi => ?_
      unfold shiftOut
      rw [shiftOut_passes, if_pos hi]
      refine copyString_of_lt (hfits _ ?_)
      exact mem_topFirst.2 ⟨i + 1, by omega, rfl⟩
    calc topFirst (shiftOut stack.entries) (stack.count - 1)
        = topFirst (shiftOut stack.entries) (kHistory - 1) := by rw [hfull]
      _ = topFirst (fun i => stack.entries (i + 1)) (kHistory - 1) := hshift
      _ = (topFirst stack.entries (kHistory - 1 + 1)).dropLast := topFirst_succ _ _
      _ = stack.paths.dropLast := by rw [← hpos]; rfl
  · rw [if_neg hfull, if_neg hfull]
    exact hupdate stack.entries stack.count

/-- The stack without its top. -/
theorem pop_paths {stack : Stack} {path : Path} {paths : List Path}
    (h : stack.paths = path :: paths) : (pop stack).1 = path ∧ (pop stack).2.paths = paths := by
  obtain ⟨entries, count⟩ := stack
  cases count with
  | zero => exact nomatch h
  | succ n =>
    have hcons : entries n :: topFirst entries n = path :: paths := h
    obtain ⟨hpath, hpaths⟩ := List.cons.inj hcons
    exact ⟨hpath, hpaths⟩

/-! ## The history of a run -/

/-- The file browser's stacks hold this history, and every path fits into its buffer. -/
structure Represents (s : Browser) (h : History Path kHistory) : Prop where
  current : s.currentPath = h.current
  back : s.backStack.paths = h.back
  forward : s.forwardStack.paths = h.forward
  fits : ∀ path ∈ h.line, Fits path

/-- The stacks count the paths of the history. -/
theorem Represents.counts {s : Browser} {h : History Path kHistory} (hs : Represents s h) :
    s.backStack.count = h.back.length ∧ s.forwardStack.count = h.forward.length := by
  rw [← hs.back, ← hs.forward, Stack.length_paths, Stack.length_paths]
  exact ⟨rfl, rfl⟩

/-- The current path fits its buffer. -/
theorem Represents.fits_current {s : Browser} {h : History Path kHistory}
    (hs : Represents s h) : Fits s.currentPath := by
  rw [hs.current]
  refine hs.fits _ ?_
  exact List.mem_append_right _ List.mem_cons_self

/-- The paths to go back to fit their buffers. -/
theorem Represents.fits_back {s : Browser} {h : History Path kHistory} (hs : Represents s h) :
    ∀ path ∈ s.backStack.paths, Fits path := by
  intro path hpath
  rw [hs.back] at hpath
  exact hs.fits path (List.mem_append_left _ (List.mem_reverse.2 hpath))

/-- The paths to go forward to fit their buffers. -/
theorem Represents.fits_forward {s : Browser} {h : History Path kHistory}
    (hs : Represents s h) : ∀ path ∈ s.forwardStack.paths, Fits path := by
  intro path hpath
  rw [hs.forward] at hpath
  exact hs.fits path (List.mem_append_right _ (List.mem_cons_of_mem _ hpath))

/-- A history remembers at least one path. -/
theorem kHistory_pos : 0 < kHistory := by decide

/-- A folder that is opened is visited. -/
theorem navigate_represents {s : Browser} {h : History Path kHistory} (hs : Represents s h)
    {path : Path} (hne : path ≠ s.currentPath) (select : Option Path) :
    Represents (s.navigate path select)
      (h.visit kHistory_pos (copyString pathCapacity path)) := by
  unfold Browser.navigate
  rw [if_neg hne]
  refine ⟨rfl, ?_, rfl, ?_⟩
  · show (push s.backStack s.currentPath).paths = History.pushed kHistory h.current h.back
    rw [push_paths hs.fits_back hs.fits_current, hs.back, hs.current]
  · -- The line is now the paths behind, the one left and the one opened.
    intro p hp
    have hmem : p ∈ (History.pushed kHistory h.current h.back).reverse ++
        [copyString pathCapacity path] := hp
    rcases List.mem_append.1 hmem with hmem | hmem
    · have hpushed := List.mem_reverse.1 hmem
      unfold History.pushed at hpushed
      rcases List.mem_cons.1 hpushed with rfl | hback
      · rw [← hs.current]
        exact hs.fits_current
      · rw [← hs.back] at hback
        refine hs.fits_back p ?_
        split at hback
        · exact List.dropLast_subset _ hback
        · exact hback
    · rw [List.mem_singleton.1 hmem]
      exact fits_copyString path

/-- Going back is going back in the history. -/
theorem goBack_represents {s : Browser} {h : History Path kHistory} (hs : Represents s h) :
    Represents s.goBack h.goBack := by
  have hline := h.line_goBack
  obtain ⟨hback, hforward⟩ := hs.counts
  have hfits := hs.fits
  rw [← hline] at hfits
  obtain ⟨back, current, forward, length_le⟩ := h
  cases back with
  | nil =>
    unfold Browser.goBack
    have hzero : s.backStack.count = 0 := hback
    rw [if_pos hzero]
    exact hs
  | cons path back =>
    obtain ⟨hpath, hpaths⟩ := pop_paths hs.back
    rw [List.length_cons] at hback length_le
    -- With a path to go back to, there is room for one more to go forward to.
    have hroom : s.forwardStack.count < kHistory := by
      have hforward' : s.forwardStack.count = forward.length := hforward
      omega
    have hpush := push_paths hs.fits_forward hs.fits_current
    rw [History.pushed_of_lt _ (by rw [Stack.length_paths]; exact hroom)] at hpush
    unfold Browser.goBack
    rw [if_neg (by omega)]
    refine ⟨?_, hpaths, ?_, hfits⟩
    · show copyString pathCapacity (pop s.backStack).1 = path
      rw [hpath]
      refine copyString_of_lt (hs.fits_back path ?_)
      rw [hs.back]
      exact List.mem_cons_self
    · show (push s.forwardStack s.currentPath).paths = current :: forward
      rw [hpush, hs.current, hs.forward]

/-- Going forward is going forward in the history. -/
theorem goForward_represents {s : Browser} {h : History Path kHistory} (hs : Represents s h) :
    Represents s.goForward h.goForward := by
  have hline := h.line_goForward
  obtain ⟨hback, hforward⟩ := hs.counts
  have hfits := hs.fits
  rw [← hline] at hfits
  obtain ⟨back, current, forward, length_le⟩ := h
  cases forward with
  | nil =>
    unfold Browser.goForward
    have hzero : s.forwardStack.count = 0 := hforward
    rw [if_pos hzero]
    exact hs
  | cons path forward =>
    obtain ⟨hpath, hpaths⟩ := pop_paths hs.forward
    rw [List.length_cons] at hforward length_le
    -- With a path to go forward to, there is room for one more to go back to.
    have hroom : s.backStack.count < kHistory := by
      have hback' : s.backStack.count = back.length := hback
      omega
    have hpush := push_paths hs.fits_back hs.fits_current
    rw [History.pushed_of_lt _ (by rw [Stack.length_paths]; exact hroom)] at hpush
    unfold Browser.goForward
    rw [if_neg (by omega)]
    refine ⟨?_, ?_, hpaths, hfits⟩
    · show copyString pathCapacity (pop s.forwardStack).1 = path
      rw [hpath]
      refine copyString_of_lt (hs.fits_forward path ?_)
      rw [hs.forward]
      exact List.mem_cons_self
    · show (push s.backStack s.currentPath).paths = current :: back
      rw [hpush, hs.current, hs.back]

/-- Every operation is one on the history. -/
theorem step_represents {s : Browser} {h : History Path kHistory} (hs : Represents s h)
    (op : Op) : ∃ h', Represents (step s op) h' := by
  have hnavigate : ∀ path select, ∃ h', Represents (s.navigate path select) h' := by
    intro path select
    by_cases hsame : path = s.currentPath
    · refine ⟨h, ?_⟩
      unfold Browser.navigate
      rw [if_pos hsame]
      exact hs
    · exact ⟨_, navigate_represents hs hsame select⟩
  cases op with
  | navigate path select => exact hnavigate path select
  | goBack => exact ⟨_, goBack_represents hs⟩
  | goForward => exact ⟨_, goForward_represents hs⟩
  | openParent =>
    show ∃ h', Represents s.openParent h'
    unfold Browser.openParent
    split
    · exact ⟨h, hs⟩
    · exact hnavigate _ _

/-- After any run the stacks hold a history. -/
theorem run_represents (ops : List Op) : ∃ h, Represents (ops.foldl step .start) h := by
  have hall : ∀ s : Browser, (∃ h, Represents s h) → ∃ h, Represents (ops.foldl step s) h := by
    induction ops with
    | nil => exact fun s hs => hs
    | cons op ops ih =>
      rintro s ⟨h, hs⟩
      exact ih (step s op) (step_represents hs op)
  refine hall .start ⟨⟨[], startPath, [], Nat.zero_le _⟩, rfl, rfl, rfl, ?_⟩
  intro path hpath
  rw [List.mem_singleton.1 hpath]
  unfold Fits
  decide

/-- The same path is open and the two stacks hold the same paths. -/
structure SameHistory (s s' : Browser) : Prop where
  currentPath : s.currentPath = s'.currentPath
  backStack : s.backStack.paths = s'.backStack.paths
  forwardStack : s.forwardStack.paths = s'.forwardStack.paths

/-- All paths of the history, from the oldest on. -/
def Browser.line (s : Browser) : List Path :=
  s.backStack.paths.reverse ++ s.currentPath :: s.forwardStack.paths

/-- Browsers of one history have the same paths. -/
theorem Represents.same {s s' : Browser} {h : History Path kHistory} (hs : Represents s h)
    (hs' : Represents s' h) : SameHistory s s' :=
  ⟨hs.current.trans hs'.current.symm, hs.back.trans hs'.back.symm,
    hs.forward.trans hs'.forward.symm⟩

/-- The folders in a row are those of the history. -/
theorem Represents.line {s : Browser} {h : History Path kHistory} (hs : Represents s h) :
    s.line = h.line := by
  unfold Browser.line History.line
  rw [hs.current, hs.back, hs.forward]

/-- Going back opens the path remembered last. -/
theorem Represents.goBack_moves {s : Browser} {h : History Path kHistory} (hs : Represents s h)
    {path : Path} {paths : List Path} (hback : s.backStack.paths = path :: paths) :
    s.goBack.currentPath = path ∧ s.goBack.backStack.paths = paths ∧
      s.goBack.forwardStack.paths = s.currentPath :: s.forwardStack.paths := by
  have hgoBack := goBack_represents hs
  rw [hs.back] at hback
  obtain ⟨hcurrent, hpaths, hforward⟩ := History.goBack_of_back hback
  rw [hgoBack.current, hgoBack.back, hgoBack.forward, hs.current, hs.forward]
  exact ⟨hcurrent, hpaths, hforward⟩

/-- Going forward opens the path that was left last by going back. -/
theorem Represents.goForward_moves {s : Browser} {h : History Path kHistory}
    (hs : Represents s h) {path : Path} {paths : List Path}
    (hforward : s.forwardStack.paths = path :: paths) :
    s.goForward.currentPath = path ∧ s.goForward.forwardStack.paths = paths ∧
      s.goForward.backStack.paths = s.currentPath :: s.backStack.paths := by
  have hgoForward := goForward_represents hs
  rw [hs.forward] at hforward
  obtain ⟨hcurrent, hpaths, hback⟩ := History.goForward_of_forward hforward
  rw [hgoForward.current, hgoForward.back, hgoForward.forward, hs.current, hs.back]
  exact ⟨hcurrent, hpaths, hback⟩

/-- After any run from the start, no more than `kHistory` paths are remembered; back opens the one
remembered last, and forward the one left last; forward undoes back and back undoes forward; neither
forgets a path; the parent folder is opened by `navigate`; and `navigate` forgets the paths ahead,
and the oldest one when the back stack is full. -/
theorem history_kept (ops : List Op) :
    let s := ops.foldl step .start
    s.backStack.count + s.forwardStack.count ≤ kHistory ∧
      (∀ path paths, s.backStack.paths = path :: paths →
        s.goBack.currentPath = path ∧ s.goBack.backStack.paths = paths ∧
          s.goBack.forwardStack.paths = s.currentPath :: s.forwardStack.paths) ∧
      (∀ path paths, s.forwardStack.paths = path :: paths →
        s.goForward.currentPath = path ∧ s.goForward.forwardStack.paths = paths ∧
          s.goForward.backStack.paths = s.currentPath :: s.backStack.paths) ∧
      (s.backStack.count ≠ 0 → SameHistory s.goBack.goForward s) ∧
      (s.forwardStack.count ≠ 0 → SameHistory s.goForward.goBack s) ∧
      s.goBack.line = s.line ∧ s.goForward.line = s.line ∧
      (s.openParent = s ∨ ∃ parent select, Fits parent ∧
        s.openParent = s.navigate parent select) ∧
      (∀ select, s.navigate s.currentPath select = s) ∧
      ∀ path select, Fits path → path ≠ s.currentPath →
        (s.navigate path select).currentPath = path ∧
          (s.navigate path select).forwardStack.paths = [] ∧
          (s.navigate path select).backStack.paths =
            s.currentPath :: if s.backStack.count = kHistory then s.backStack.paths.dropLast
              else s.backStack.paths := by
  intro s
  -- Everything is read off the history that the state represents.
  obtain ⟨h, hs⟩ : ∃ h, Represents s h := run_represents ops
  obtain ⟨hback, hforward⟩ := hs.counts
  have hgoBack := goBack_represents hs
  have hgoForward := goForward_represents hs
  refine ⟨?_, fun path paths => hs.goBack_moves, fun path paths => hs.goForward_moves, ?_, ?_, ?_,
    ?_, ?_, ?_, ?_⟩
  · have := h.length_le
    omega
  · intro hne
    have hne' : h.back ≠ [] := by
      intro hnil
      rw [hback, hnil] at hne
      exact hne rfl
    have hreturn := goForward_represents hgoBack
    rw [History.goForward_goBack hne'] at hreturn
    exact hreturn.same hs
  · intro hne
    have hne' : h.forward ≠ [] := by
      intro hnil
      rw [hforward, hnil] at hne
      exact hne rfl
    have hreturn := goBack_represents hgoForward
    rw [History.goBack_goForward hne'] at hreturn
    exact hreturn.same hs
  · rw [hgoBack.line, hs.line, History.line_goBack]
  · rw [hgoForward.line, hs.line, History.line_goForward]
  · unfold Browser.openParent
    split
    · exact Or.inl rfl
    · exact Or.inr ⟨_, _, length_buildParentPath_lt _ (by decide), rfl⟩
  · intro select
    unfold Browser.navigate
    rw [if_pos rfl]
  · intro path select hfits hne
    have hnavigate := navigate_represents hs hne select
    refine ⟨?_, hnavigate.forward, ?_⟩
    · rw [hnavigate.current]
      exact copyString_of_lt hfits
    · rw [hnavigate.back, ← Stack.length_paths, hs.current, hs.back]
      rfl

end IUserApps.FileBrowser
