import IUserApps.Sysdeps.Kernel

/-!
# The fd table

The table of `sysdeps.cpp` that maps the program's fds to kernel handles, the look-up and the
registration of a handle, and the two ways in which every sysdep starts and ends: `withHandle`, the
look-up with its check, and `newFd`, a registration that closes the handle when the table is full.
A slot with handle 0 counts as free.
-/

namespace IUserApps.Sysdeps

open Interact

/-- The slots of the table of fds. -/
def kMaxFd : ℕ := 256

/-- The handle in each slot below `kMaxFd`. -/
abbrev FdTable := ℕ → ℤ

/-- The table at the start of a process. -/
def initialTable : FdTable := fun fd => if fd = 1 then 1 else if fd = 2 then 2 else 0

/-- An entry of a directory. -/
structure Dirent where
  name : List Byte
  inode : ℕ
  type : ℕ
deriving DecidableEq, Repr, Inhabited

/-- The directory streams. -/
def kMaxDirs : ℕ := 32
/-- The entries of a snapshot at most. -/
def kMaxDirEntries : ℕ := 256

/-- Where the directory handles start, well above the fds. -/
def kDirHandleBase : ℤ := 0x40000000

/-- An open directory, read through a snapshot of its entries. -/
structure DirStream where
  inUse : Bool
  loaded : Bool
  /-- Opened with `fdopendir()`: it belongs to the fd `ownerFd`. -/
  fromFd : Bool
  ownerFd : ℤ
  cursor : ℕ
  count : ℕ
  path : List Byte
  entries : List Dirent
deriving DecidableEq, Repr, Inhabited

/-- The file-scope state of the sysdeps. -/
structure Libc where
  fdTable : FdTable
  /-- The directory streams below `kMaxDirs`. -/
  dirStreams : ℕ → DirStream

/-- The sysdeps at the start of a process. -/
def initialLibc : Libc :=
  ⟨initialTable, fun _ => ⟨false, false, false, 0, 0, 0, [], []⟩⟩

/-- Stores a handle in a slot. -/
def Libc.setFd (s : Libc) (fd : ℕ) (handle : ℤ) : Libc :=
  { s with fdTable := Function.update s.fdTable fd handle }

/-- One slot of the table is changed. -/
@[simp] theorem fdTable_setFd (s : Libc) (fd : ℕ) (handle : ℤ) :
    (s.setFd fd handle).fdTable = Function.update s.fdTable fd handle := rfl

/-- A sysdep: it makes kernel calls, works on the state and returns an error number or a value. -/
abbrev Sys := Act KCall Answer Libc Errno

/-- A kernel call whose error the sysdep returns at once. -/
def syscall (c : KCall) : Sys Answer := do
  let a ← Act.ask c
  if scError a.ret ≠ 0 then
    Act.throw (scError a.ret)
  else
    pure a

/-! ## Look-up -/

/-- The handle of an fd, or -1 outside the table. -/
def handleForFd (table : FdTable) (fd : ℤ) : ℤ :=
  if fd < 0 ∨ (kMaxFd : ℤ) ≤ fd then -1 else table fd.toNat

/-- `long handle = handle_for_fd(fd); if (handle < 0) return EBADF;` and what follows. -/
def withHandle {α : Type} (fd : ℤ) (next : ℤ → Sys α) : Sys α := do
  let s ← Act.get
  let handle := handleForFd s.fdTable fd
  if handle < 0 then
    Act.throw EBADF
  else
    next handle

/-! ## Registration -/

/-- The first of `n` slots from `fd` on whose handle is 0. -/
def freeFrom (table : FdTable) : ℕ → ℕ → Option ℕ
  | 0, _ => none
  | n + 1, fd => if table fd = 0 then some fd else freeFrom table n (fd + 1)

/-- The first free slot at or above `min`. -/
def freeFd (table : FdTable) (min : ℤ) : Option ℕ :=
  let min := if min < 0 then 0 else min.toNat
  freeFrom table (kMaxFd - min) min

/-- Stores a handle in the first free slot at or above `min`. -/
def registerFdMin (handle min : ℤ) : Sys (Option ℕ) := do
  let s ← Act.get
  match freeFd s.fdTable min with
  | some fd =>
    Act.modify fun s => s.setFd fd handle
    pure (some fd)
  | none => pure none

/-- Stores a handle in the first free slot from 3 on, if there is one. -/
def registerFd (handle : ℤ) : Sys (Option ℕ) := registerFdMin handle 3

/-- Stores a handle in a given slot. -/
def registerFdAt (fd handle : ℤ) : Sys Unit :=
  if fd < 0 ∨ (kMaxFd : ℤ) ≤ fd then pure ()
  else Act.modify fun s => s.setFd fd.toNat handle

/-- A new fd for a handle, which is closed when the table is full. -/
def newFd (handle min : ℤ) : Sys ℕ := do
  match ← registerFdMin handle min with
  | some fd => pure fd
  | none =>
    let _ ← Act.ask (kcall .close [handle] [])
    Act.throw EMFILE

/-! ## What they do -/

section
variable {table : FdTable} {s s' : Libc} {trace : List (KCall × Answer)}

/-- An fd in the table has the handle of its slot. -/
theorem handleForFd_of_lt {fd : ℤ} (h0 : 0 ≤ fd) (h : fd < kMaxFd) :
    handleForFd table fd = table fd.toNat := by
  unfold handleForFd
  rw [if_neg]
  omega

/-- Outside the table there is no handle. -/
theorem handleForFd_of_not_lt {fd : ℤ} (h : fd < 0 ∨ (kMaxFd : ℤ) ≤ fd) :
    handleForFd table fd = -1 := by
  unfold handleForFd
  rw [if_pos h]

/-- The search over the slots as one over their numbers. -/
theorem freeFrom_eq_find (n fd : ℕ) :
    freeFrom table n fd = (List.range' fd n).find? fun k => decide (table k = 0) := by
  induction n generalizing fd with
  | zero => rfl
  | succ n ih =>
    rw [freeFrom, List.range'_succ, List.find?_cons, ih]
    by_cases hz : table fd = 0
    · rw [if_pos hz, decide_eq_true hz]
    · rw [if_neg hz, decide_eq_false hz]

/-- The search finds the first slot with handle 0 among those it looks at. -/
theorem freeFrom_eq_some {n fd found : ℕ} :
    freeFrom table n fd = some found ↔
      fd ≤ found ∧ found < fd + n ∧ table found = 0 ∧ ∀ k, fd ≤ k → k < found → table k ≠ 0 := by
  rw [freeFrom_eq_find, List.find?_range'_eq_some]
  simp only [decide_eq_true_eq, List.mem_range'_1, Bool.not_eq_true', decide_eq_false_iff_not]
  constructor
  · rintro ⟨hz, ⟨hle, hlt⟩, hfirst⟩
    exact ⟨hle, hlt, hz, hfirst⟩
  · rintro ⟨hle, hlt, hz, hfirst⟩
    exact ⟨hz, ⟨hle, hlt⟩, hfirst⟩

/-- Nothing is found when every slot it looks at is taken. -/
theorem freeFrom_eq_none {n fd : ℕ} :
    freeFrom table n fd = none ↔ ∀ k, fd ≤ k → k < fd + n → table k ≠ 0 := by
  rw [freeFrom_eq_find, List.find?_range'_eq_none]
  simp only [Bool.not_eq_true', decide_eq_false_iff_not, ne_eq]

/-- What `freeFd` finds: the first slot of the table at or above `min` with handle 0. -/
theorem freeFd_eq_some {min : ℤ} {fd : ℕ} :
    freeFd table min = some fd ↔
      min ≤ fd ∧ fd < kMaxFd ∧ table fd = 0 ∧ ∀ k : ℕ, min ≤ k → k < fd → table k ≠ 0 := by
  unfold freeFd
  rw [freeFrom_eq_some]
  have hmin : (if min < 0 then 0 else min.toNat) = min.toNat := by
    split <;> omega
  rw [hmin]
  constructor
  · rintro ⟨h0, h1, hz, hk⟩
    exact ⟨by omega, by omega, hz, fun k hk0 hk1 => hk k (by omega) hk1⟩
  · rintro ⟨h0, h1, hz, hk⟩
    exact ⟨by omega, by omega, hz, fun k hk0 hk1 => hk k (by omega) hk1⟩

/-- It finds nothing when no slot at or above `min` has handle 0. -/
theorem freeFd_eq_none {min : ℤ} :
    freeFd table min = none ↔ ∀ k : ℕ, min ≤ k → k < kMaxFd → table k ≠ 0 := by
  unfold freeFd
  rw [freeFrom_eq_none]
  have hmin : (if min < 0 then 0 else min.toNat) = min.toNat := by
    split <;> omega
  rw [hmin]
  constructor
  · intro hk k h0 h1
    exact hk k (by omega) (by omega)
  · intro hk k h0 h1
    exact hk k (by omega) (by omega)

/-- A successful kernel call in sequence goes on; a failed one is the sysdep's error. -/
theorem runs_syscall_bind {α : Type} {c : KCall} {f : Answer → Sys α} {r : Except Errno α} :
    Act.Runs (syscall c >>= f) s trace r s' ↔
      ∃ a rest, trace = (c, a) :: rest ∧
        ((a.ok = false ∧ rest = [] ∧ r = .error (scError a.ret) ∧ s' = s) ∨
          (a.ok = true ∧ Act.Runs (f a) s rest r s')) := by
  have hbind : ∀ a : Answer, Act.Runs
      ((if scError a.ret ≠ 0 then Act.throw (scError a.ret) else pure a : Sys Answer) >>= f) s
      = fun rest r s' => (a.ok = false ∧ rest = [] ∧ r = .error (scError a.ret) ∧ s' = s) ∨
          (a.ok = true ∧ Act.Runs (f a) s rest r s') := by
    intro a
    funext rest r s'
    apply propext
    by_cases h : scError a.ret = 0
    · have ha := Answer.ok_iff.2 h
      rw [if_neg (not_not.2 h), Act.runs_pure_bind]
      simp [ha]
    · have ha : a.ok = false := by
        rw [← Bool.not_eq_true, Answer.ok_iff]
        exact h
      rw [if_pos h, Act.runs_throw_bind]
      simp [ha]
  have hassoc : Act.Runs (syscall c >>= f) s trace r s' ↔ Act.Runs (Act.ask c >>= fun a =>
      (if scError a.ret ≠ 0 then Act.throw (scError a.ret) else pure a : Sys Answer) >>= f)
      s trace r s' := by
    unfold syscall
    exact Iff.rfl
  rw [hassoc, Act.runs_ask_bind]
  simp only [hbind]

/-- A sysdep that looks an fd up fails with `EBADF` or goes on with the handle. -/
theorem runs_withHandle {α : Type} {fd : ℤ} {next : ℤ → Sys α} {r : Except Errno α} :
    Act.Runs (withHandle fd next) s trace r s' ↔
      if handleForFd s.fdTable fd < 0 then trace = [] ∧ r = .error EBADF ∧ s' = s
      else Act.Runs (next (handleForFd s.fdTable fd)) s trace r s' := by
  unfold withHandle
  rw [Act.runs_get_bind]
  dsimp only
  split
  · exact Act.runs_throw
  · exact Iff.rfl

/-- What follows a look-up is part of what the look-up goes on with. -/
theorem withHandle_bind {α β : Type} (fd : ℤ) (next : ℤ → Sys α) (f : α → Sys β) :
    withHandle fd next >>= f = withHandle fd fun handle => next handle >>= f := by
  unfold withHandle
  rw [bind_assoc]
  congr 1
  funext s
  dsimp only
  split <;> rfl

/-- A registration in sequence. -/
theorem runs_registerFdMin_bind {α : Type} {handle min : ℤ} {f : Option ℕ → Sys α}
    {r : Except Errno α} :
    Act.Runs (registerFdMin handle min >>= f) s trace r s' ↔
      Act.Runs (f (freeFd s.fdTable min))
        ((freeFd s.fdTable min).elim s fun fd => s.setFd fd handle) trace r s' := by
  have h : (registerFdMin handle min >>= f) s =
      f (freeFd s.fdTable min) ((freeFd s.fdTable min).elim s fun fd => s.setFd fd handle) := by
    unfold registerFdMin
    show ((match freeFd s.fdTable min with
      | some fd => (do
        Act.modify fun s => s.setFd fd handle
        pure (some fd) : Sys (Option ℕ))
      | none => pure none) >>= f) s = _
    cases freeFd s.fdTable min <;> rfl
  show Prog.Runs _ _ _ ↔ Prog.Runs _ _ _
  rw [h]

/-- A new fd is the first free one, or the handle is closed. -/
theorem runs_newFd {handle min : ℤ} {r : Except Errno ℕ} :
    Act.Runs (newFd handle min) s trace r s' ↔
      (∃ fd, freeFd s.fdTable min = some fd ∧ trace = [] ∧ r = .ok fd ∧ s' = s.setFd fd handle) ∨
        (freeFd s.fdTable min = none ∧
          ∃ a, trace = [(kcall .close [handle] [], a)] ∧ r = .error EMFILE ∧ s' = s) := by
  unfold newFd
  rw [runs_registerFdMin_bind]
  cases h : freeFd s.fdTable min with
  | some fd => simp
  | none =>
    simp only [Option.elim_none, Act.runs_ask_bind, Act.runs_throw, reduceCtorEq, false_and,
      exists_false, false_or, true_and]
    constructor
    · rintro ⟨a, rest, rfl, rfl, rfl, rfl⟩
      exact ⟨a, rfl, rfl, rfl⟩
    · rintro ⟨a, rfl, rfl, rfl⟩
      exact ⟨a, [], rfl, rfl, rfl, rfl⟩

end

end IUserApps.Sysdeps
