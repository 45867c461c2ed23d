import IUserApps.Sysdeps.Lookup

/-!
# Calls on an fd that is not open

`handle_for_fd` checks that an fd lies in the table, and not that it is open: the slot of an fd
that is not open contains 0, the handle of stdin at the start. `FdCall` lists the sysdeps that take
an fd. On an fd that is not open only those refuse for certain that refuse for another reason.
-/

namespace IUserApps.Sysdeps

open Interact Runs

/-- A path that a `*at` call resolves against its directory fd. -/
structure RelPath where
  path : List Byte
  relative : path.head? ≠ some 47#8

/-- A sysdep that takes an fd, with its other arguments. `pselect`, `poll` and `passed` take the fds
in their sets, their list and their message; `renameatNew` and `linkatNew` take the fd as the
directory of the new path. -/
inductive FdCall
  | isatty
  | write (buffer : List Byte)
  | read (size : ℕ)
  | close
  | seek (offset whence : ℤ)
  | readEntries (maxSize : ℕ)
  | fchmod (mode : ℤ)
  | ftruncate (size : ℤ)
  | fsync
  | fdatasync
  | fstatvfs
  | fstat (path : Option (List Byte)) (flags : ℕ)
  | pread (n : ℕ) (off : ℤ)
  | pwrite (buf : List Byte) (off : ℤ)
  | fchdir
  | ttyname (size : ℕ)
  | vmMap (hint : ℤ) (size : ℕ) (prot : ℤ) (flags : ℕ) (offset : ℤ)
  | fadvise (offset length advice : ℤ)
  | fcntl (request arg : ℤ)
  | ioctl (request : ℕ) (arg : Option Block)
  | tcgetattr (attr : Block)
  | tcsetattr (optionalAction : ℤ) (attr : Block)
  | dup
  | dup2 (newfd : ℤ)
  | openat (path : RelPath) (flags mode : ℤ)
  | mkdirat (path : RelPath) (mode : ℤ)
  | unlinkat (path : RelPath) (flags : ℕ)
  | fchmodat (path : RelPath) (mode : ℤ)
  | readlinkat (path : RelPath) (maxSize : ℕ)
  | mknodat (path : RelPath) (mode dev : ℤ)
  | mkfifoat (path : RelPath) (mode : ℤ)
  | faccessat (path : RelPath) (mode : ℤ)
  | symlinkat (path : RelPath) (target : List Byte)
  | fchownat (path : RelPath) (owner group : ℤ) (flags : ℕ)
  | fstatat (path : RelPath) (flags : ℕ)
  | utimensat (path : RelPath) (times : Option (UTime × UTime)) (flags : ℕ)
  | futimens (times : Option (UTime × UTime)) (flags : ℕ)
  | renameatOld (oldPath : RelPath) (newdirfd : ℤ) (newPath : Option (List Byte))
  | renameatNew (olddirfd : ℤ) (oldPath : List Byte) (newPath : RelPath)
  | linkatOld (oldPath : RelPath) (newdirfd : ℤ) (newPath : Option (List Byte))
  | linkatNew (olddirfd : ℤ) (oldPath : List Byte) (newPath : RelPath)
  | pselect (numFds : ℕ) (reads writes : Option (ℕ → Bool)) (timeout : Option (ℤ × ℤ))
  | poll (fds : List (ℤ × ℕ)) (timeout : ℤ)
  | bind (addr : List Byte)
  | connect (addr : List Byte) (rounds : ℕ)
  | listen (backlog : ℤ)
  | accept
  | sendto (buffer : List Byte) (flags : ℤ) (sockAddr : List Byte)
  | recvfrom (size : ℕ) (flags : ℤ) (addrLength : Option ℕ)
  | msgSend (hdr : MsgHdr) (flags : ℤ) (alloc : ℕ → Bool)
  | passed (sock : ℤ) (hdr : MsgHdr) (flags : ℤ) (alloc : ℕ → Bool)
  | msgRecv (room : MsgRoom) (flags : ℤ) (alloc : ℕ → Bool)
  | shutdown (how : ℤ)
  | getSockopt (layer number : ℤ) (size : ℕ)
  | setSockopt (layer number : ℤ) (buffer : List Byte)
  | sockname (maxAddrLength : ℕ)
  | peername (maxAddrLength : ℕ)

/-- Makes a call for its error only. -/
def outcomeOf {α : Type} (m : Sys α) : Sys Unit := do
  let _ ← m
  pure ()

/-- The error of an ioctl. -/
def ioctlOutcome (m : Sys (Option Block × Except Errno ℤ)) : Sys Unit := do
  let (_, status) ← m
  match status with
  | .ok _ => pure ()
  | .error e => Act.throw e

/-- Makes a call on an fd. -/
def FdCall.run (c : FdCall) (fd : ℤ) : Sys Unit :=
  match c with
  | .isatty => sysIsatty fd
  | .write buffer => outcomeOf (sysWrite fd buffer)
  | .read size => outcomeOf (sysRead fd size)
  | .close => sysClose fd
  | .seek offset whence => outcomeOf (sysSeek fd offset whence)
  | .readEntries maxSize => outcomeOf (sysReadEntries fd maxSize)
  | .fchmod mode => sysFchmod fd mode
  | .ftruncate size => sysFtruncate fd size
  | .fsync => sysFsync fd
  | .fdatasync => sysFdatasync fd
  | .fstatvfs => outcomeOf (sysFstatvfs fd)
  | .fstat path flags => outcomeOf (sysStat .fd fd path flags)
  | .pread n off => outcomeOf (sysPread fd n off)
  | .pwrite buf off => outcomeOf (sysPwrite fd buf off)
  | .fchdir => sysFchdir fd
  | .ttyname size => outcomeOf (sysTtyname fd size)
  | .vmMap hint size prot flags offset => outcomeOf (sysVmMap hint size prot flags fd offset)
  | .fadvise offset length advice => sysFadvise fd offset length advice
  | .fcntl request arg => outcomeOf (sysFcntl fd request arg)
  | .ioctl request arg => ioctlOutcome (sysIoctl fd request arg)
  | .tcgetattr attr => ioctlOutcome (sysTcgetattr fd attr)
  | .tcsetattr optionalAction attr => ioctlOutcome (sysTcsetattr fd optionalAction attr)
  | .dup => outcomeOf (sysDup fd)
  | .dup2 newfd => sysDup2 fd newfd
  | .openat path flags mode => outcomeOf (sysOpenat fd path.path flags mode)
  | .mkdirat path mode => sysMkdirat fd path.path mode
  | .unlinkat path flags => sysUnlinkat fd path.path flags
  | .fchmodat path mode => sysFchmodat fd path.path mode
  | .readlinkat path maxSize => outcomeOf (sysReadlinkat fd path.path maxSize)
  | .mknodat path mode dev => sysMknodat fd path.path mode dev
  | .mkfifoat path mode => sysMkfifoat fd path.path mode
  | .faccessat path mode => sysFaccessat fd path.path mode
  | .symlinkat path target => sysSymlinkat fd path.path target
  | .fchownat path owner group flags => sysFchownat fd path.path owner group flags
  | .fstatat path flags => outcomeOf (sysStat .fdPath fd path.path flags)
  | .utimensat path times flags => sysUtimensat fd path.path times flags
  | .futimens times flags => sysUtimensat fd none times flags
  | .renameatOld oldPath newdirfd newPath => sysRenameat fd oldPath.path newdirfd newPath
  | .renameatNew olddirfd oldPath newPath => sysRenameat olddirfd oldPath fd newPath.path
  | .linkatOld oldPath newdirfd newPath => sysLinkat fd oldPath.path newdirfd newPath
  | .linkatNew olddirfd oldPath newPath => sysLinkat olddirfd oldPath fd newPath.path
  | .pselect numFds reads writes timeout => outcomeOf (sysPselect numFds reads writes timeout)
  | .poll fds timeout => outcomeOf (sysPoll fds timeout)
  | .bind addr => sysBind fd addr
  | .connect addr rounds => outcomeOf (sysConnect fd addr rounds)
  | .listen backlog => sysListen fd backlog
  | .accept => outcomeOf (sysAccept fd)
  | .sendto buffer flags sockAddr => outcomeOf (sysSendto fd buffer flags sockAddr)
  | .recvfrom size flags addrLength => outcomeOf (sysRecvfrom fd size flags addrLength)
  | .msgSend hdr flags alloc => outcomeOf (sysMsgSend fd hdr flags alloc)
  | .passed sock hdr flags alloc => outcomeOf (sysMsgSend sock hdr flags alloc)
  | .msgRecv room flags alloc => outcomeOf (sysMsgRecv fd room flags alloc)
  | .shutdown how => sysShutdown fd how
  | .getSockopt layer number size => outcomeOf (sysGetSockopt fd layer number size)
  | .setSockopt layer number buffer => sysSetSockopt fd layer number buffer
  | .sockname maxAddrLength => outcomeOf (sysSockname fd maxAddrLength)
  | .peername maxAddrLength => outcomeOf (sysPeername fd maxAddrLength)

/-- An fd whose slot is checked and found free. -/
def NotOpen (table : FdTable) (fd : ℤ) : Prop :=
  fd < 0 ∨ (kMaxFd : ℤ) ≤ fd ∨ (table fd.toNat = 0 ∧ 2 < fd)

/-- An fd outside the table. -/
def OutOfTable (fd : ℤ) : Prop := fd < 0 ∨ (kMaxFd : ℤ) ≤ fd

/-- The call is refused before it asks the kernel, for something else than the free slot of its
fd: another fd that it takes lies outside the table, or is passed and not open. -/
def FdCall.RefusedAnyway (c : FdCall) (table : FdTable) : Prop :=
  match c with
  | .dup2 newfd => OutOfTable newfd
  | .renameatNew olddirfd oldPath _ | .linkatNew olddirfd oldPath _ =>
    oldPath.head? ≠ some 47#8 ∧ olddirfd ≠ kAtFdCwd ∧ OutOfTable olddirfd
  | .pselect numFds reads writes _ =>
    ∃ bad, kMaxFd ≤ bad ∧ bad < numFds ∧ wantedEvents reads writes bad ≠ 0 ∧
      ((List.range bad).filter fun k => wantedEvents reads writes k ≠ 0).length < 64
  | .msgSend hdr _ _ => ∃ bad ∈ (passedFds hdr).take kMaxPassedFds, NotOpen table bad
  | .passed sock hdr _ _ =>
    OutOfTable sock ∨ ∃ bad ∈ (passedFds hdr).take kMaxPassedFds, NotOpen table bad
  | _ => False

/-- On whatever the kernel answers, the call on the fd returns `EBADF` and makes no kernel call on
the handle of another open fd. -/
def Refuses (p : Process) (c : FdCall) (fd : ℕ) : Prop :=
  ∀ trace r s', Act.Runs (c.run fd) p.libc trace r s' → Legal p.live trace →
    r = .error EBADF ∧ ∀ step ∈ trace, ∀ handle ∈ step.1.handles, ∀ other ∈ p.opened,
      other ≠ fd → p.libc.fdTable other ≠ handle

/-! ## A kernel that fails every call -/

/-- The answer `EIO`. -/
def eio : Answer := returns (-5)

/-- The result of a sysdep when every kernel call fails with `EIO`. -/
def onEio {α : Type} (m : Sys α) (s : Libc) : Except Errno α := (m.exec s fun _ => eio).1.1

/-- Such answers are allowed. -/
theorem legal_eio {live : Live} {trace : List (KCall × Answer)}
    (h : ∀ step ∈ trace, step.2 = eio) : Legal live trace := by
  induction trace generalizing live with
  | nil => trivial
  | cons step t ih =>
    obtain ⟨c, a⟩ := step
    obtain rfl : a = eio := h (c, a) List.mem_cons_self
    have hg : granted c eio = [] := (quiet_of_failed (by decide)).1
    refine ⟨⟨?_, ?_, fun hok => absurd hok (by decide)⟩,
      ih fun step hstep => h step (List.mem_cons_of_mem _ hstep)⟩
    · intro x hx
      rw [hg] at hx
      exact absurd hx List.not_mem_nil
    · rw [hg]
      exact List.nodup_nil

/-- A call that refuses does so on these answers. -/
theorem Refuses.onEio {p : Process} {c : FdCall} {fd : ℕ} (h : Refuses p c fd) :
    onEio (c.run fd) p.libc = .error EBADF :=
  (h _ _ _ (Act.exec_runs (c.run fd) p.libc fun _ => eio)
    (legal_eio (Prog.exec_answers _ eio))).1

section
variable {α β : Type} {s : Libc}

/-- Reading the state takes no answer. -/
theorem onEio_get_bind (f : Libc → Sys α) : onEio (Act.get >>= f) s = onEio (f s) s := rfl

/-- Changing the state takes no answer. -/
theorem onEio_modify_bind (g : Libc → Libc) (f : Unit → Sys α) :
    onEio (Act.modify g >>= f) s = onEio (f ()) (g s) := rfl

/-- A call is answered with the error. -/
theorem onEio_ask_bind (c : KCall) (f : Answer → Sys α) :
    onEio (Act.ask c >>= f) s = onEio (f eio) s := rfl

/-- A call that may fail does. -/
theorem onEio_syscall_bind (c : KCall) (f : Answer → Sys α) :
    onEio (syscall c >>= f) s = .error EIO := rfl

/-- The error is another one. -/
theorem eio_ne_ebadf : (.error EIO : Except Errno α) ≠ .error EBADF := by
  intro h
  exact absurd (Except.error.inj h) (by decide)

/-- What follows a sysdep is done on the state it leaves, unless it has failed. -/
theorem onEio_bind (m : Sys α) (f : α → Sys β) :
    onEio (m >>= f) s =
      match (m.exec s fun _ => eio).1 with
      | (.ok a, s') => onEio (f a) s'
      | (.error e, _) => .error e := by
  show Prod.fst (Prod.fst (Prog.exec (Prog.bind (m s) _) fun _ => eio)) = _
  rw [Prog.exec_bind]
  show _ = match ((m s).exec fun _ => eio).1 with
    | (.ok a, s') => onEio (f a) s'
    | (.error e, _) => .error e
  cases ((m s).exec fun _ => eio).1 with
  | mk r s' => cases r <;> rfl

/-- A sysdep that fails, in sequence. -/
theorem onEio_bind_of_error {m : Sys α} {e : Errno} (h : onEio m s = .error e) (f : α → Sys β) :
    onEio (m >>= f) s = .error e := by
  rw [onEio_bind]
  unfold onEio at h
  cases hm : (m.exec s fun _ => eio).1 with
  | mk r s' =>
    rw [hm] at h
    obtain rfl : r = .error e := h
    rfl

/-- A call for its error only has that error. -/
theorem onEio_outcomeOf {m : Sys α} {e : Errno} :
    onEio (outcomeOf m) s = .error e ↔ onEio m s = .error e := by
  constructor
  · intro h
    unfold outcomeOf at h
    rw [onEio_bind] at h
    unfold onEio
    cases hm : (m.exec s fun _ => eio).1 with
    | mk r s' =>
      rw [hm] at h
      cases r with
      | ok a =>
        have hok : (.ok () : Except Errno Unit) = .error e := h
        exact absurd hok (by simp)
      | error e' => exact congrArg _ (Except.error.inj h)
  · exact fun h => onEio_bind_of_error h _

/-- In the table a look-up goes on with the handle of the slot. -/
theorem onEio_withHandle {fd : ℤ} (hin : ¬ OutOfTable fd) (hnonneg : 0 ≤ s.fdTable fd.toNat)
    (next : ℤ → Sys α) :
    onEio (withHandle fd next) s = onEio (next (s.fdTable fd.toNat)) s := by
  have hhandle : handleForFd s.fdTable fd = s.fdTable fd.toNat := by
    unfold OutOfTable at hin
    exact handleForFd_of_lt (by omega) (by omega)
  unfold withHandle
  rw [onEio_get_bind]
  dsimp only
  rw [hhandle, if_neg (by omega)]

/-- A relative path is resolved by a kernel call. -/
theorem onEio_atResolve_bind {dirfd : ℤ} (hin : ¬ OutOfTable dirfd)
    (hnonneg : 0 ≤ s.fdTable dirfd.toNat) {path : List Byte} (hrel : path.head? ≠ some 47#8)
    (f : List Byte → Sys α) :
    onEio (atResolve dirfd (some path) kAtBuffer >>= f) s = .error EIO := by
  have hcwd : dirfd ≠ kAtFdCwd := by
    rintro rfl
    exact hin (Or.inl (by decide))
  apply onEio_bind_of_error
  unfold atResolve
  dsimp only
  rw [if_neg (not_or.2 ⟨hrel, hcwd⟩), onEio_withHandle hin hnonneg, onEio_syscall_bind]

/-- A path that needs no directory fd, or whose directory fd lies outside the table. -/
theorem onEio_atResolve_old {dirfd : ℤ} {path : List Byte}
    (hnonneg : ∀ fd < kMaxFd, 0 ≤ s.fdTable fd) {f : List Byte → Sys α}
    (h : onEio (atResolve dirfd (some path) kAtBuffer >>= f) s = .error EBADF) :
    (path.head? ≠ some 47#8 ∧ dirfd ≠ kAtFdCwd ∧ OutOfTable dirfd) ∨
      onEio (f path) s = .error EBADF := by
  by_cases hcond : path.head? = some 47#8 ∨ dirfd = kAtFdCwd
  · right
    unfold atResolve at h
    dsimp only at h
    rwa [if_pos hcond, pure_bind] at h
  · obtain ⟨hrel, hcwd⟩ := not_or.1 hcond
    left
    refine ⟨hrel, hcwd, ?_⟩
    by_contra hin
    have hlt : dirfd.toNat < kMaxFd := by
      unfold OutOfTable at hin
      omega
    rw [onEio_atResolve_bind hin (hnonneg _ hlt) hrel] at h
    exact absurd h eio_ne_ebadf

/-- Without a slot no fd is missing. -/
theorem slotOutcome_nil {block : Block} {trace : List (KCall × Answer)} {result : Block × Bool}
    {s' : Libc} (h : SlotOutcome s block [] trace result s') : result.2 = false := by
  cases h
  rfl

/-- An ioctl that fails has its error. -/
theorem onEio_sysIoctl {fd : ℤ} (hin : ¬ OutOfTable fd) (hnonneg : 0 ≤ s.fdTable fd.toNat)
    (request : ℕ) (arg : Option Block) :
    onEio (ioctlOutcome (sysIoctl fd request arg)) s = .error EIO := by
  unfold ioctlOutcome sysIoctl
  rw [withHandle_bind, onEio_withHandle hin hnonneg, bind_assoc, onEio_get_bind]
  cases arg with
  | none => rfl
  | some bytes =>
    dsimp only
    rw [bind_assoc, onEio_ask_bind, bind_assoc, onEio_bind]
    obtain ⟨result, hresult, hslot⟩ := runs_ioctlAfter
      (Act.exec_runs (ioctlAfter s.fdTable request bytes eio) s fun _ => eio)
    have hok : eio.ok = false := by decide
    rw [hok, if_neg Bool.false_ne_true] at hslot
    have hfull := slotOutcome_nil hslot
    cases hx : ((ioctlAfter s.fdTable request bytes eio).exec s fun _ => eio).1 with
    | mk r s' =>
      rw [hx] at hresult
      obtain rfl : r = .ok result := hresult
      obtain ⟨after, full⟩ := result
      obtain rfl : full = false := hfull
      rfl

/-- What is found when the passed fds are looked up: an error when there are too many, or one of
the first is not open. -/
theorem collectHandles_error (table : FdTable) (fds handles : List ℤ)
    (hlen : handles.length ≤ kMaxPassedFds) :
    collectHandles table fds handles = .error EBADF ↔
      ∃ bad ∈ fds.take (kMaxPassedFds - handles.length), NotOpen table bad := by
  induction fds generalizing handles with
  | nil =>
    unfold collectHandles
    simp
  | cons fd fds ih =>
    unfold collectHandles
    by_cases hfull : handles.length = kMaxPassedFds
    · rw [if_pos hfull, hfull, Nat.sub_self]
      refine iff_of_false (fun h => absurd (Except.error.inj h) (by decide)) ?_
      simp
    · rw [if_neg hfull]
      have hsub : kMaxPassedFds - handles.length =
          kMaxPassedFds - (handles ++ [handleForFd table fd]).length + 1 := by
        rw [List.length_append, List.length_singleton]
        omega
      rw [hsub, List.take_succ_cons]
      simp only [List.mem_cons, exists_eq_or_imp]
      by_cases hbad : NotOpen table fd
      · rw [if_pos (show fd < 0 ∨ (kMaxFd : ℤ) ≤ fd ∨ (table fd.toNat = 0 ∧ 2 < fd) from hbad)]
        exact iff_of_true rfl (Or.inl hbad)
      · rw [if_neg (show ¬ (fd < 0 ∨ (kMaxFd : ℤ) ≤ fd ∨ (table fd.toNat = 0 ∧ 2 < fd)) from hbad),
          ih _ (by rw [List.length_append, List.length_singleton]; omega)]
        exact (or_iff_right hbad).symm

/-- The scan of a select fails at an fd outside the table, unless it has found 64 fds before. -/
theorem selectFds_error {table : FdTable} {wanted : ℕ → ℕ} {n fd : ℕ} {found : List (ℕ × ℤ)}
    {e : Errno} :
    selectFds table wanted n fd found = .error e ↔
      e = EBADF ∧ ∃ bad, fd ≤ bad ∧ bad < fd + n ∧ wanted bad ≠ 0 ∧ handleForFd table bad < 0 ∧
        found.length + ((List.range' fd (bad - fd)).filter fun k => wanted k ≠ 0).length < 64 := by
  induction n generalizing fd found with
  | zero =>
    unfold selectFds
    constructor
    · intro h
      cases h
    · rintro ⟨-, bad, h0, h1, -⟩
      omega
  | succ n ih =>
    -- The fds counted before `bad` are the one at `fd` and those after it.
    have hcount : ∀ bad, fd + 1 ≤ bad →
        ((List.range' fd (bad - fd)).filter fun k => wanted k ≠ 0).length =
          (if wanted fd ≠ 0 then 1 else 0) +
            ((List.range' (fd + 1) (bad - (fd + 1))).filter fun k => wanted k ≠ 0).length := by
      intro bad hbad
      have hsub : bad - fd = bad - (fd + 1) + 1 := by omega
      rw [hsub, List.range'_succ, List.filter_cons]
      by_cases hw : wanted fd = 0 <;> simp [hw, Nat.add_comm]
    unfold selectFds
    split
    · next hfull =>
      refine iff_of_false (by simp) ?_
      rintro ⟨-, bad, -, -, -, -, hlt⟩
      omega
    · next hroom =>
      split
      · next hw =>
        rw [ih]
        refine and_congr_right fun _ => exists_congr fun bad => ?_
        constructor
        · rintro ⟨h0, h1, h2, h3, h4⟩
          refine ⟨by omega, by omega, h2, h3, ?_⟩
          rw [hcount bad h0, if_neg (not_not.2 hw)]
          omega
        · rintro ⟨h0, h1, h2, h3, h4⟩
          have hne : bad ≠ fd := by
            rintro rfl
            exact h2 hw
          rw [hcount bad (by omega), if_neg (not_not.2 hw)] at h4
          exact ⟨by omega, by omega, h2, h3, by omega⟩
      · next hw =>
        dsimp only
        split
        · next hbad =>
          constructor
          · intro h
            refine ⟨(Except.error.inj h).symm, fd, Nat.le_refl _, by omega, hw, hbad, ?_⟩
            rw [Nat.sub_self]
            simp only [List.range'_zero, List.filter_nil, List.length_nil]
            omega
          · rintro ⟨rfl, -⟩
            rfl
        · next hgood =>
          rw [ih]
          refine and_congr_right fun _ => exists_congr fun bad => ?_
          rw [List.length_append, List.length_singleton]
          constructor
          · rintro ⟨h0, h1, h2, h3, h4⟩
            refine ⟨by omega, by omega, h2, h3, ?_⟩
            rw [hcount bad h0, if_pos hw]
            omega
          · rintro ⟨h0, h1, h2, h3, h4⟩
            have hne : bad ≠ fd := by
              rintro rfl
              exact hgood h3
            rw [hcount bad (by omega), if_pos hw] at h4
            exact ⟨by omega, by omega, h2, h3, by omega⟩

/-- One call on the handle. -/
theorem onEio_handleCall {fd : ℤ} (hin : ¬ OutOfTable fd) (hnonneg : 0 ≤ s.fdTable fd.toNat)
    (number : Syscall) (args : List ℤ) (data : List (List Byte)) (result : Answer → α) :
    onEio (handleCall fd number args data result) s = .error EIO := by
  unfold handleCall
  rw [onEio_withHandle hin hnonneg, onEio_syscall_bind]

/-- One call on a relative path. -/
theorem onEio_atCall {fd : ℤ} (hin : ¬ OutOfTable fd) (hnonneg : 0 ≤ s.fdTable fd.toNat)
    (path : RelPath) (number : Syscall) (args : List ℤ) (result : Answer → α) :
    onEio (atCall fd path.path number args result) s = .error EIO := by
  unfold atCall
  exact onEio_atResolve_bind hin hnonneg path.relative _

/-- A message is sent, or refused for one of the fds it passes. -/
theorem onEio_sysMsgSend {sock : ℤ} (hnonneg : ∀ fd < kMaxFd, 0 ≤ s.fdTable fd) {hdr : MsgHdr}
    {flags : ℤ} {alloc : ℕ → Bool}
    (h : onEio (sysMsgSend sock hdr flags alloc) s = .error EBADF) :
    OutOfTable sock ∨ ∃ bad ∈ (passedFds hdr).take kMaxPassedFds, NotOpen s.fdTable bad := by
  by_cases hout : OutOfTable sock
  · exact Or.inl hout
  · right
    have hlt : sock.toNat < kMaxFd := by
      unfold OutOfTable at hout
      omega
    unfold sysMsgSend unixMsgSend at h
    rw [onEio_withHandle hout (hnonneg _ hlt), bind_assoc, onEio_get_bind] at h
    have hcollect := collectHandles_error s.fdTable (passedFds hdr) [] (Nat.zero_le _)
    rw [List.length_nil, Nat.sub_zero] at hcollect
    rw [← hcollect]
    cases hc : collectHandles s.fdTable (passedFds hdr) [] with
    | error e =>
      rw [hc] at h
      exact congrArg _ (Except.error.inj h)
    | ok handles =>
      rw [hc] at h
      dsimp only at h
      split at h
      · exact absurd (Except.error.inj h) (by decide)
      · exact absurd (Except.error.inj h) (by decide)

/-- A failed call is not refused. -/
theorem not_ebadf {m : Sys α} (hm : onEio m s = .error EIO) (h : onEio m s = .error EBADF) :
    False := eio_ne_ebadf (hm.symm.trans h)

/-- A look-up that is followed by a call whose error is returned. -/
theorem onEio_withHandle_syscall {fd : ℤ} (hin : ¬ OutOfTable fd)
    (hnonneg : 0 ≤ s.fdTable fd.toNat) (call : ℤ → KCall) (next : ℤ → Answer → Sys α) :
    onEio (withHandle fd fun handle => syscall (call handle) >>= next handle) s = .error EIO := by
  rw [onEio_withHandle hin hnonneg, onEio_syscall_bind]

/-- The fds of the table lie below the handles of directories. -/
theorem not_dirHandle {fd : ℤ} (hin : ¬ OutOfTable fd) : ¬ kDirHandleBase ≤ fd := by
  unfold OutOfTable kMaxFd at hin
  unfold kDirHandleBase
  omega

/-- A descriptor that the kernel knows nothing of is no terminal. -/
theorem onEio_sysIsatty {fd : ℤ} (hin : ¬ OutOfTable fd) (hnonneg : 0 ≤ s.fdTable fd.toNat) :
    onEio (sysIsatty fd) s ≠ .error EBADF := by
  unfold sysIsatty
  rw [onEio_withHandle hin hnonneg]
  intro h
  exact absurd (Except.error.inj h) (by decide)

/-- `Ttyname` does not fail with `EBADF` on an fd in the table. -/
theorem onEio_sysTtyname {fd : ℤ} (hin : ¬ OutOfTable fd) (hnonneg : 0 ≤ s.fdTable fd.toNat)
    (size : ℕ) : onEio (sysTtyname fd size) s ≠ .error EBADF := by
  unfold sysTtyname
  rw [onEio_withHandle hin hnonneg]
  intro h
  exact absurd (Except.error.inj h) (by decide)

/-- Closing an fd, other than a standard one, asks the kernel. -/
theorem onEio_sysClose {fd : ℤ} (h3 : 3 ≤ fd) (hin : ¬ OutOfTable fd)
    (hnonneg : 0 ≤ s.fdTable fd.toNat) : onEio (sysClose fd) s ≠ .error EBADF := by
  unfold sysClose
  rw [if_neg (not_dirHandle hin), onEio_modify_bind,
    onEio_withHandle hin (by rwa [fdTable_releaseDir]), if_neg (by omega)]
  exact eio_ne_ebadf

/-- A dup2 is refused for the fd it is to make. -/
theorem onEio_sysDup2 {fd newfd : ℤ} (hin : ¬ OutOfTable fd) (hnonneg : 0 ≤ s.fdTable fd.toNat)
    (h : onEio (sysDup2 fd newfd) s = .error EBADF) : newfd < 0 ∨ (kMaxFd : ℤ) ≤ newfd := by
  unfold sysDup2 at h
  rw [onEio_withHandle hin hnonneg] at h
  by_contra hout
  rw [if_neg hout] at h
  exact eio_ne_ebadf h

/-- A mapping of a file asks the kernel, and one of no file too. -/
theorem onEio_sysVmMap {fd : ℤ} (hin : ¬ OutOfTable fd) (hnonneg : 0 ≤ s.fdTable fd.toNat)
    (hint : ℤ) (size : ℕ) (prot : ℤ) (flags : ℕ) (offset : ℤ) :
    onEio (sysVmMap hint size prot flags fd offset) s = .error EIO := by
  unfold sysVmMap
  split
  · rfl
  · exact onEio_handleCall hin hnonneg _ _ _ _

/-- The owner is changed of the fd itself or of a relative path. -/
theorem onEio_sysFchownat {fd : ℤ} (hin : ¬ OutOfTable fd) (hnonneg : 0 ≤ s.fdTable fd.toNat)
    (path : RelPath) (owner group : ℤ) (flags : ℕ) :
    onEio (sysFchownat fd path.path owner group flags) s = .error EIO := by
  unfold sysFchownat
  split
  · exact onEio_handleCall hin hnonneg _ _ _ _
  · exact onEio_atCall hin hnonneg _ _ _ _

/-- A select is refused for an fd outside the table that is looked up, hence one of the first 64 that
it names. -/
theorem onEio_sysPselect (hnonneg : ∀ k < kMaxFd, 0 ≤ s.fdTable k) {numFds : ℕ}
    {reads writes : Option (ℕ → Bool)} {timeout : Option (ℤ × ℤ)}
    (h : onEio (sysPselect numFds reads writes timeout) s = .error EBADF) :
    ∃ bad, kMaxFd ≤ bad ∧ bad < numFds ∧ wantedEvents reads writes bad ≠ 0 ∧
      ((List.range bad).filter fun k => wantedEvents reads writes k ≠ 0).length < 64 := by
  unfold sysPselect at h
  rw [onEio_get_bind] at h
  cases hsel : selectFds s.fdTable (wantedEvents reads writes) numFds 0 [] with
  | error e =>
    obtain ⟨-, bad, -, hbad, hw, hhandle, hcount⟩ := selectFds_error.1 hsel
    -- An fd of the table has a handle, be it that of stdin.
    have hge : kMaxFd ≤ bad := by
      by_contra hin
      rw [handleForFd_of_lt (by omega) (by omega), Int.toNat_natCast] at hhandle
      have hpos := hnonneg bad (by omega)
      omega
    refine ⟨bad, hge, by omega, hw, ?_⟩
    rw [List.length_nil, Nat.zero_add, Nat.sub_zero, ← List.range_eq_range'] at hcount
    exact hcount
  | ok found =>
    rw [hsel] at h
    dsimp only at h
    split at h
    · cases h
    · exact (eio_ne_ebadf h).elim

/-- Receiving a message asks the kernel, unless there is no memory for it. -/
theorem onEio_sysMsgRecv {fd : ℤ} (hin : ¬ OutOfTable fd) (hnonneg : 0 ≤ s.fdTable fd.toNat)
    (room : MsgRoom) (flags : ℤ) (alloc : ℕ → Bool) :
    onEio (sysMsgRecv fd room flags alloc) s ≠ .error EBADF := by
  unfold sysMsgRecv unixMsgRecv
  rw [onEio_withHandle hin hnonneg]
  dsimp only
  split
  · intro h
    exact absurd (Except.error.inj h) (by decide)
  · intro h
    exact absurd (Except.error.inj h) (by decide)

/-- Reading a directory by its fd asks the kernel, or gives what is left of the snapshot. -/
theorem onEio_sysReadEntries {fd : ℤ} (hin : ¬ OutOfTable fd) (hnonneg : 0 ≤ s.fdTable fd.toNat)
    (maxSize : ℕ) : onEio (sysReadEntries fd maxSize) s ≠ .error EBADF := by
  unfold sysReadEntries streamFor
  rw [bind_assoc, onEio_get_bind, if_neg (not_dirHandle hin)]
  cases hstream : findDirStreamByFd s fd with
  | none =>
    have hpath : onEio (fdToPath fd 256) s = .error EIO := by
      unfold fdToPath
      rw [onEio_withHandle hin hnonneg, onEio_syscall_bind]
    rw [bind_assoc, onEio_bind_of_error hpath]
    exact eio_ne_ebadf
  | some slot =>
    dsimp only
    rw [pure_bind]
    unfold loadStream
    rw [bind_assoc, onEio_get_bind]
    split
    · intro h
      cases h
    · exact eio_ne_ebadf

/-- Setting times on an fd or a relative path asks the kernel. -/
theorem onEio_sysUtimensat {fd : ℤ} (hin : ¬ OutOfTable fd) (hnonneg : 0 ≤ s.fdTable fd.toNat)
    {path : Option (List Byte)} (hrel : ∀ p, path = some p → p.head? ≠ some 47#8)
    (times : Option (UTime × UTime)) (flags : ℕ) :
    onEio (sysUtimensat fd path times flags) s = .error EIO := by
  unfold sysUtimensat utimeTarget
  cases path with
  | none =>
    dsimp only
    rw [withHandle_bind, onEio_withHandle hin hnonneg, pure_bind, onEio_ask_bind]
    dsimp only
    split <;> rfl
  | some p =>
    dsimp only
    rw [bind_assoc]
    exact onEio_atResolve_bind hin hnonneg (hrel p rfl) _

/-- What a call is on: the open file, a path below its directory, sets of fds, or a socket. -/
inductive FdCallKind
  | file
  | path
  | sets
  | socket

/-- The kind of a call. -/
def FdCall.kind : FdCall → FdCallKind
  | .openat _ _ _ | .mkdirat _ _ | .unlinkat _ _ | .fchmodat _ _ | .readlinkat _ _
  | .mknodat _ _ _ | .mkfifoat _ _ | .faccessat _ _ | .symlinkat _ _ | .fchownat _ _ _ _
  | .fstatat _ _ | .utimensat _ _ _ | .futimens _ _ | .renameatOld _ _ _ | .renameatNew _ _ _
  | .linkatOld _ _ _ | .linkatNew _ _ _ => .path
  | .pselect _ _ _ _ | .poll _ _ => .sets
  | .bind _ | .connect _ _ | .listen _ | .accept | .sendto _ _ _ | .recvfrom _ _ _
  | .msgSend _ _ _ | .passed _ _ _ _ | .msgRecv _ _ _ | .shutdown _ | .getSockopt _ _ _
  | .setSockopt _ _ _ | .sockname _ | .peername _ => .socket
  | _ => .file

/-- No call on a file says `EBADF` by itself on a slot that holds a handle, but a `Dup2` onto an fd
outside the table: the kernel's refusal is another. -/
theorem refusedAnyway_of_file {fd : ℕ} (h3 : 3 ≤ fd) (hlt : fd < kMaxFd)
    (hnonneg : ∀ k < kMaxFd, 0 ≤ s.fdTable k) {c : FdCall} (hkind : c.kind = .file)
    (h : onEio (c.run fd) s = .error EBADF) : c.RefusedAnyway s.fdTable := by
  have hin : ¬ OutOfTable (fd : ℤ) := by
    unfold OutOfTable
    omega
  have h0 : 0 ≤ s.fdTable (fd : ℤ).toNat := hnonneg fd hlt
  have hcall := fun number args data (result : Answer → Unit) =>
    not_ebadf (onEio_handleCall hin h0 number args data result)
  -- The first kernel call of each fails, with the other error; only the advice makes none.
  cases c with
  | isatty => exact absurd h (onEio_sysIsatty hin h0)
  | write buffer => exact (not_ebadf (onEio_handleCall hin h0 _ _ _ _) (onEio_outcomeOf.1 h)).elim
  | read size => exact (not_ebadf (onEio_handleCall hin h0 _ _ _ _) (onEio_outcomeOf.1 h)).elim
  | close => exact absurd h (onEio_sysClose (by omega) hin h0)
  | seek offset whence =>
    exact (not_ebadf (onEio_handleCall hin h0 _ _ _ _) (onEio_outcomeOf.1 h)).elim
  | readEntries maxSize =>
    exact absurd (onEio_outcomeOf.1 h) (onEio_sysReadEntries hin h0 maxSize)
  | fchmod mode => exact (hcall _ _ _ _ h).elim
  | ftruncate size => exact (hcall _ _ _ _ h).elim
  | fsync => exact (hcall _ _ _ _ h).elim
  | fdatasync => exact (hcall _ _ _ _ h).elim
  | fstatvfs => exact (not_ebadf (onEio_handleCall hin h0 _ _ _ _) (onEio_outcomeOf.1 h)).elim
  | fstat path flags =>
    exact (not_ebadf (onEio_handleCall hin h0 _ _ _ _) (onEio_outcomeOf.1 h)).elim
  | pread n off =>
    exact (not_ebadf (onEio_withHandle_syscall hin h0 _ _) (onEio_outcomeOf.1 h)).elim
  | pwrite buf off =>
    exact (not_ebadf (onEio_withHandle_syscall hin h0 _ _) (onEio_outcomeOf.1 h)).elim
  | fchdir =>
    have h' : onEio (sysFchdir fd) s = .error EBADF := h
    exact (not_ebadf (onEio_withHandle_syscall hin h0 _ _) h').elim
  | ttyname size => exact absurd (onEio_outcomeOf.1 h) (onEio_sysTtyname hin h0 size)
  | vmMap hint size prot flags offset =>
    exact (not_ebadf (onEio_sysVmMap hin h0 _ _ _ _ _) (onEio_outcomeOf.1 h)).elim
  | fadvise offset length advice => cases h
  | fcntl request arg =>
    exact (not_ebadf (onEio_withHandle_syscall hin h0 _ _) (onEio_outcomeOf.1 h)).elim
  | ioctl request arg => exact (not_ebadf (onEio_sysIoctl hin h0 _ _) h).elim
  | tcgetattr attr => exact (not_ebadf (onEio_sysIoctl hin h0 _ _) h).elim
  | tcsetattr optionalAction attr => exact (not_ebadf (onEio_sysIoctl hin h0 _ _) h).elim
  | dup =>
    exact (not_ebadf (onEio_withHandle_syscall hin h0 _ _) (onEio_outcomeOf.1 h)).elim
  | dup2 newfd => exact onEio_sysDup2 hin h0 h
  | _ => exact nomatch hkind

/-- A call on a path is refused by itself for the other fd that it takes only. -/
theorem refusedAnyway_of_path {fd : ℕ} (hlt : fd < kMaxFd)
    (hnonneg : ∀ k < kMaxFd, 0 ≤ s.fdTable k) {c : FdCall} (hkind : c.kind = .path)
    (h : onEio (c.run fd) s = .error EBADF) : c.RefusedAnyway s.fdTable := by
  have hin : ¬ OutOfTable (fd : ℤ) := by
    unfold OutOfTable
    omega
  have h0 : 0 ≤ s.fdTable (fd : ℤ).toNat := hnonneg fd hlt
  have hat := fun path number args (result : Answer → Unit) =>
    not_ebadf (onEio_atCall hin h0 path number args result)
  -- The directory's path is asked for first, and that call fails with the other error.
  cases c with
  | openat path flags mode =>
    refine (not_ebadf ?_ (onEio_outcomeOf.1 h)).elim
    unfold sysOpenat
    exact onEio_atResolve_bind hin h0 path.relative _
  | mkdirat path mode => exact (hat _ _ _ _ h).elim
  | unlinkat path flags => exact (hat _ _ _ _ h).elim
  | fchmodat path mode => exact (hat _ _ _ _ h).elim
  | readlinkat path maxSize =>
    exact (not_ebadf (onEio_atCall hin h0 _ _ _ _) (onEio_outcomeOf.1 h)).elim
  | mknodat path mode dev => exact (hat _ _ _ _ h).elim
  | mkfifoat path mode => exact (hat _ _ _ _ h).elim
  | faccessat path mode => exact (hat _ _ _ _ h).elim
  | symlinkat path target =>
    exact (not_ebadf (onEio_atResolve_bind hin h0 path.relative _) h).elim
  | fchownat path owner group flags =>
    exact (not_ebadf (onEio_sysFchownat hin h0 path owner group flags) h).elim
  | fstatat path flags =>
    exact (not_ebadf (onEio_atCall hin h0 _ _ _ _) (onEio_outcomeOf.1 h)).elim
  | utimensat path times flags =>
    refine (not_ebadf (onEio_sysUtimensat hin h0 ?_ times flags) h).elim
    rintro p hp
    obtain rfl := Option.some.inj hp
    exact path.relative
  | futimens times flags =>
    exact (not_ebadf (onEio_sysUtimensat hin h0 (fun p hp => absurd hp (by simp)) times flags)
      h).elim
  | renameatOld oldPath newdirfd newPath =>
    exact (not_ebadf (onEio_atResolve_bind hin h0 oldPath.relative _) h).elim
  | renameatNew olddirfd oldPath newPath =>
    refine (onEio_atResolve_old hnonneg h).resolve_right fun h' => ?_
    exact not_ebadf (onEio_atResolve_bind hin h0 newPath.relative _) h'
  | linkatOld oldPath newdirfd newPath =>
    exact (not_ebadf (onEio_atResolve_bind hin h0 oldPath.relative _) h).elim
  | linkatNew olddirfd oldPath newPath =>
    refine (onEio_atResolve_old hnonneg h).resolve_right fun h' => ?_
    exact not_ebadf (onEio_atResolve_bind hin h0 newPath.relative _) h'
  | _ => exact nomatch hkind

/-- So is a call on sets of fds for the others of them. -/
theorem refusedAnyway_of_sets {fd : ℕ}
    (hnonneg : ∀ k < kMaxFd, 0 ≤ s.fdTable k) {c : FdCall} (hkind : c.kind = .sets)
    (h : onEio (c.run fd) s = .error EBADF) : c.RefusedAnyway s.fdTable := by
  cases c with
  | pselect numFds reads writes timeout =>
    exact onEio_sysPselect hnonneg (onEio_outcomeOf.1 h)
  | poll fds timeout =>
    have h' := onEio_outcomeOf.1 h
    unfold sysPoll at h'
    split at h'
    · cases h'
    · split at h'
      · exact absurd (Except.error.inj h') (by decide)
      · exact (eio_ne_ebadf h').elim
  | _ => exact nomatch hkind

/-- A call on a socket is refused for an fd that it passes on. -/
theorem refusedAnyway_of_socket {fd : ℕ} (hlt : fd < kMaxFd)
    (hnonneg : ∀ k < kMaxFd, 0 ≤ s.fdTable k) {c : FdCall} (hkind : c.kind = .socket)
    (h : onEio (c.run fd) s = .error EBADF) : c.RefusedAnyway s.fdTable := by
  have hin : ¬ OutOfTable (fd : ℤ) := by
    unfold OutOfTable
    omega
  have h0 : 0 ≤ s.fdTable (fd : ℤ).toNat := hnonneg fd hlt
  have hcall := fun number args data (result : Answer → Unit) =>
    not_ebadf (onEio_handleCall hin h0 number args data result)
  cases c with
  | bind addr => exact (hcall _ _ _ _ h).elim
  | connect addr rounds =>
    refine (not_ebadf ?_ (onEio_outcomeOf.1 h)).elim
    unfold sysConnect
    rw [onEio_withHandle hin h0]
    rfl
  | listen backlog => exact (hcall _ _ _ _ h).elim
  | accept =>
    exact (not_ebadf (onEio_withHandle_syscall hin h0 _ _) (onEio_outcomeOf.1 h)).elim
  | sendto buffer flags sockAddr =>
    exact (not_ebadf (onEio_withHandle_syscall hin h0 _ _) (onEio_outcomeOf.1 h)).elim
  | recvfrom size flags addrLength =>
    exact (not_ebadf (onEio_withHandle_syscall hin h0 _ _) (onEio_outcomeOf.1 h)).elim
  | msgSend hdr flags alloc =>
    exact (onEio_sysMsgSend hnonneg (onEio_outcomeOf.1 h)).resolve_left hin
  | passed sock hdr flags alloc => exact onEio_sysMsgSend hnonneg (onEio_outcomeOf.1 h)
  | msgRecv room flags alloc =>
    exact absurd (onEio_outcomeOf.1 h) (onEio_sysMsgRecv hin h0 room flags alloc)
  | shutdown how => exact (hcall _ _ _ _ h).elim
  | getSockopt layer number size =>
    exact (not_ebadf (onEio_handleCall hin h0 _ _ _ _) (onEio_outcomeOf.1 h)).elim
  | setSockopt layer number buffer => exact (hcall _ _ _ _ h).elim
  | sockname maxAddrLength =>
    exact (not_ebadf (onEio_handleCall hin h0 _ _ _ _) (onEio_outcomeOf.1 h)).elim
  | peername maxAddrLength =>
    exact (not_ebadf (onEio_handleCall hin h0 _ _ _ _) (onEio_outcomeOf.1 h)).elim
  | _ => exact nomatch hkind

/-- Every call on an fd whose slot is free that is refused by a failing kernel is refused for
another fd. -/
theorem refusedAnyway_of_onEio {fd : ℕ} (h3 : 3 ≤ fd) (hlt : fd < kMaxFd)
    (hnonneg : ∀ k < kMaxFd, 0 ≤ s.fdTable k) {c : FdCall}
    (h : onEio (c.run fd) s = .error EBADF) : c.RefusedAnyway s.fdTable := by
  cases hkind : c.kind with
  | file => exact refusedAnyway_of_file h3 hlt hnonneg hkind h
  | path => exact refusedAnyway_of_path hlt hnonneg hkind h
  | sets => exact refusedAnyway_of_sets hnonneg hkind h
  | socket => exact refusedAnyway_of_socket hlt hnonneg hkind h

/-! ## Calls refused for another fd -/

/-- Every run of the sysdep fails with `EBADF` before it asks the kernel. -/
def RefusedAtOnce (m : Sys α) (s : Libc) : Prop :=
  ∀ trace r s', Act.Runs m s trace r s' → r = .error EBADF ∧ trace = []

/-- Raising the error is refusing at once. -/
theorem refusedAtOnce_throw : RefusedAtOnce (Act.throw EBADF : Sys α) s := by
  intro trace r s' h
  obtain ⟨rfl, rfl, -⟩ := Act.runs_throw.1 h
  exact ⟨rfl, rfl⟩

/-- Nothing follows a refusal. -/
theorem RefusedAtOnce.bind {m : Sys α} (h : RefusedAtOnce m s) (f : α → Sys β) :
    RefusedAtOnce (m >>= f) s := by
  intro trace r s' hr
  rcases Act.runs_bind.1 hr with ⟨e, h1, rfl⟩ | ⟨a, mid, first, last, h1, -, -⟩
  · obtain ⟨he, ht⟩ := h _ _ _ h1
    obtain rfl := Except.error.inj he
    exact ⟨rfl, ht⟩
  · exact absurd (h _ _ _ h1).1 (by simp)

/-- The look-up of an fd outside the table is refused at once. -/
theorem refusedAtOnce_withHandle {fd : ℤ} (hout : OutOfTable fd) (next : ℤ → Sys α) :
    RefusedAtOnce (withHandle fd next) s := by
  intro trace r s' h
  rw [runs_withHandle, handleForFd_of_not_lt hout, if_pos (by decide)] at h
  exact ⟨h.2.1, h.1⟩

/-- In the table a look-up refuses when what follows it does. -/
theorem RefusedAtOnce.withHandle {fd : ℤ} {next : ℤ → Sys α}
    (h : ∀ handle, RefusedAtOnce (next handle) s) : RefusedAtOnce (withHandle fd next) s := by
  intro trace r s' hr
  rw [runs_withHandle] at hr
  split at hr
  · exact ⟨hr.2.1, hr.1⟩
  · exact h _ _ _ _ hr

/-- A message that passes an fd that is not open is refused. -/
theorem refusedAtOnce_sysMsgSend {sock : ℤ} {hdr : MsgHdr} {flags : ℤ} {alloc : ℕ → Bool}
    (h : OutOfTable sock ∨ ∃ bad ∈ (passedFds hdr).take kMaxPassedFds, NotOpen s.fdTable bad) :
    RefusedAtOnce (sysMsgSend sock hdr flags alloc) s := by
  unfold sysMsgSend
  rcases h with hout | hbad
  · exact refusedAtOnce_withHandle hout _
  · refine RefusedAtOnce.withHandle fun handle => RefusedAtOnce.bind ?_ _
    have hcollect : collectHandles s.fdTable (passedFds hdr) [] = .error EBADF :=
      (collectHandles_error _ _ _ (Nat.zero_le _)).2 hbad
    unfold unixMsgSend
    intro trace r s' hr
    rw [Act.runs_get_bind, hcollect] at hr
    exact refusedAtOnce_throw _ _ _ hr

/-- A relative path whose directory fd lies outside the table is refused. -/
theorem refusedAtOnce_atResolve {dirfd : ℤ} {path : List Byte} {outsz : ℕ}
    (h : path.head? ≠ some 47#8 ∧ dirfd ≠ kAtFdCwd ∧ OutOfTable dirfd) :
    RefusedAtOnce (atResolve dirfd (some path) outsz) s := by
  obtain ⟨hrel, hcwd, hout⟩ := h
  unfold atResolve
  dsimp only
  rw [if_neg (not_or.2 ⟨hrel, hcwd⟩)]
  exact refusedAtOnce_withHandle hout _

/-- What is refused for another fd is refused at once. -/
theorem refusedAtOnce_of_refusedAnyway {fd : ℕ} {c : FdCall} (h : c.RefusedAnyway s.fdTable) :
    RefusedAtOnce (c.run fd) s := by
  cases c with
  | dup2 newfd =>
    show RefusedAtOnce (sysDup2 fd newfd) s
    unfold sysDup2
    refine RefusedAtOnce.withHandle fun handle => ?_
    rw [if_pos (show newfd < 0 ∨ (kMaxFd : ℤ) ≤ newfd from h)]
    exact refusedAtOnce_throw
  | renameatNew olddirfd oldPath newPath => exact (refusedAtOnce_atResolve h).bind _
  | linkatNew olddirfd oldPath newPath => exact (refusedAtOnce_atResolve h).bind _
  | pselect numFds reads writes timeout =>
    obtain ⟨bad, hge, hlt, hw, hcount⟩ := h
    have hsel : selectFds s.fdTable (wantedEvents reads writes) numFds 0 [] = .error EBADF := by
      refine selectFds_error.2 ⟨rfl, bad, Nat.zero_le _, by omega, hw, ?_, ?_⟩
      · rw [handleForFd_of_not_lt (Or.inr (by omega))]
        decide
      · rw [List.length_nil, Nat.zero_add, Nat.sub_zero, ← List.range_eq_range']
        exact hcount
    refine RefusedAtOnce.bind ?_ _
    unfold sysPselect
    intro trace r s' hr
    rw [Act.runs_get_bind, hsel] at hr
    exact refusedAtOnce_throw _ _ _ hr
  | msgSend hdr flags alloc => exact (refusedAtOnce_sysMsgSend (Or.inr h)).bind _
  | passed sock hdr flags alloc => exact (refusedAtOnce_sysMsgSend h).bind _
  | _ => exact absurd h id

end

/-! ## Every run -/

/-- In every state that a run reaches, the slot of an fd that is not open contains 0, and a call on
it refuses, whatever the kernel answers, exactly when it is refused for another fd that it takes. -/
theorem refuses_iff {es : List Event} (h : LegalRun es) {fd : ℕ} (h3 : 3 ≤ fd) (hlt : fd < kMaxFd)
    (hfree : fd ∉ (after es).opened) (c : FdCall) :
    (after es).libc.fdTable fd = 0 ∧
      (Refuses (after es) c fd ↔ c.RefusedAnyway (after es).libc.fdTable) := by
  have hc := consistent_after h
  have hz : (after es).libc.fdTable fd = 0 := by
    by_contra hne
    exact hfree ((hc.opened_iff fd hlt).2 (Or.inr hne))
  refine ⟨hz, ?_⟩
  constructor
  · intro hrefuses
    exact refusedAnyway_of_onEio h3 hlt hc.nonneg hrefuses.onEio
  · intro hanyway trace r s' hr _
    obtain ⟨rfl, rfl⟩ := refusedAtOnce_of_refusedAnyway hanyway _ _ _ hr
    exact ⟨rfl, fun step hstep => absurd hstep List.not_mem_nil⟩

/-- At the start a dup2 of fd 5 onto fd 300 refuses, and onto fd 6 it does not. -/
theorem refuses_start :
    Refuses (after []) (.dup2 300) 5 ∧ ¬ Refuses (after []) (.dup2 6) 5 := by
  have hfree : 5 ∉ (after []).opened := fun h5 => absurd (show (5 : ℕ) < 3 from h5) (by decide)
  have hiff := fun newfd => (refuses_iff (show LegalRun [] from trivial) (by decide) (by decide) hfree
    (.dup2 newfd)).2
  refine ⟨(hiff 300).2 (Or.inr (by decide)), fun hrefuses => ?_⟩
  rcases (hiff 6).1 hrefuses with hout | hout
  · exact absurd hout (by decide)
  · exact absurd hout (by decide)

/-- At the start a write to fd 5, which has never been opened, is written to the handle of stdin
and succeeds. -/
theorem staleWrite_reachesStdin :
    ¬ ∀ (es : List Event) (fd : ℕ) (c : FdCall), LegalRun es → 3 ≤ fd → fd < kMaxFd →
      fd ∉ (after es).opened → Refuses (after es) c fd := by
  intro hclaim
  have hfree : 5 ∉ (after []).opened := fun h5 => absurd (show (5 : ℕ) < 3 from h5) (by decide)
  have hrefuses := hclaim [] 5 (.write [65#8]) trivial (by decide) (by decide) hfree
  have hrun := Act.exec_runs ((FdCall.write [65#8]).run (5 : ℕ)) (after []).libc
    fun _ => returns 1
  have hlegal : Legal (after []).live
      [(kcallWith .write [0] [] [[65#8]], returns 1)] :=
    ⟨⟨fun handle hmem => absurd hmem List.not_mem_nil, List.nodup_nil, fun _ => trivial⟩, trivial⟩
  have hother := (hrefuses _ _ _ hrun hlegal).2 (kcallWith .write [0] [] [[65#8]], returns 1)
    List.mem_cons_self 0 List.mem_cons_self 0 (show (0 : ℕ) < 3 by decide) (by decide)
  exact hother rfl

end IUserApps.Sysdeps
