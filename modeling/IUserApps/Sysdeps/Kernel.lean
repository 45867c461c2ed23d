import Mathlib.Data.Set.Insert
import IUserApps.Interact
import IUserApps.Words

/-!
# Kernel calls

What the sysdeps of `mlibc-sysdeps/instantos/sysdeps.cpp` say to the kernel. A call carries its
number, the kernel handles it works on, its numbers, its bytes and the memory block it may change;
an answer carries the value returned and what was written to the caller's memory. Handles are the
kernel's, not the fds of the program.

The kernel's side is what it has granted: the handles that are open (`Live`). A granted handle is
fresh, and a dup2 onto an open handle returns it (`Allowed`); everything else it may answer.
-/

namespace IUserApps.Sysdeps

/-- An error number. -/
abbrev Errno := ℤ

/-- The call was interrupted. -/
def EINTR : Errno := 4
/-- An input or output error. -/
def EIO : Errno := 5
/-- The fd is not open. -/
def EBADF : Errno := 9
/-- The call would have to wait. -/
def EAGAIN : Errno := 11
/-- There is no memory. -/
def ENOMEM : Errno := 12
/-- An argument is not valid. -/
def EINVAL : Errno := 22
/-- There is no free fd. -/
def EMFILE : Errno := 24
/-- The fd is no terminal. -/
def ENOTTY : Errno := 25
/-- The operation is not supported. -/
def EOPNOTSUPP : Errno := 95
/-- The connection was refused. -/
def ECONNREFUSED : Errno := 111
/-- The connection is being made. -/
def EINPROGRESS : Errno := 115

/-- The kernel calls that the sysdeps make (`INSTANTOS_SYS_*`). -/
inductive Syscall
  | accept | access | bind | chdir | chmod | chown | close | connect | dup | dup2 | fcntl | fdPath
  | fstat | fsync | getpeername | getsockname | getsockopt | getunixtime | ioctl | link | listen
  | lstat | mkdir | mknod | mmap | mmapFile | open | pipe | poll | read | readdir | readlink | recv
  | recvfrom | rename | rmdir | seek | send | sendto | setsockopt | setunixtime | shutdown | sleep
  | socket | socketpair | socketRecvmsg | socketSendmsg | stat | statfs | symlink | truncate
  | unlink | utime | write
deriving DecidableEq, Repr

/-- A block of memory. -/
abbrev Block := ℕ → Byte

/-- A kernel call with all that it is given. -/
structure KCall where
  number : Syscall
  /-- The handles that the call works on. -/
  handles : List ℤ
  args : List ℤ
  /-- The byte strings it is given: paths, texts, messages, addresses. -/
  data : List (List Byte)
  block : Option Block

/-- A call by its number, handles and numbers. -/
def kcall (number : Syscall) (handles args : List ℤ) : KCall := ⟨number, handles, args, [], none⟩

/-- A call that is given byte strings. -/
def kcallWith (number : Syscall) (handles args : List ℤ) (data : List (List Byte)) : KCall :=
  ⟨number, handles, args, data, none⟩

/-- What the kernel gives back for a call. -/
structure Answer where
  ret : ℤ
  /-- The handles written to the caller's array. -/
  handles : List ℤ
  /-- The caller's memory after the call. -/
  block : Block
  /-- The flags written to the caller's message. -/
  flags : ℕ
  /-- The address written to the caller's memory. -/
  name : List Byte

/-- An error number for a return value that is one. -/
def scError (ret : ℤ) : Errno := if -4095 ≤ ret ∧ ret ≤ -1 then -ret else 0

/-- The call succeeded. -/
def Answer.ok (a : Answer) : Bool := scError a.ret = 0

/-- A call succeeds if its return value is no error number. -/
theorem Answer.ok_iff {a : Answer} : a.ok = true ↔ scError a.ret = 0 := by
  unfold Answer.ok
  exact decide_eq_true_iff

/-- `Fcntl` makes a new fd. -/
def F_DUPFD : ℤ := 0
/-- `Fcntl` reads the flags. -/
def F_GETFL : ℤ := 3
/-- `Fcntl` makes a new fd that a new program does not get. -/
def F_DUPFD_CLOEXEC : ℤ := 1030

/-- The type of a File handle, in its upper bits. -/
def kFileHandleType : ℤ := 2^48

/-- A 32-bit number in memory. -/
def get32 (b : Block) (offset : ℕ) : ℤ :=
  int32 ((b offset).toNat + 256 * (b (offset + 1)).toNat + 65536 * (b (offset + 2)).toNat
    + 16777216 * (b (offset + 3)).toNat : ℕ)

/-- Memory with a 32-bit number stored. -/
def put32 (b : Block) (offset : ℕ) (value : ℤ) : Block := fun i =>
  if offset ≤ i ∧ i < offset + 4 then
    BitVec.ofNat 8 (u32 value / 256 ^ (i - offset))
  else b i

/-- A small number stored in memory is read back. -/
theorem get32_put32 (b : Block) (offset : ℕ) {n : ℕ} (h : n < 256) :
    get32 (put32 b offset n) offset = n := by
  have hn : u32 n = n := by
    unfold u32
    omega
  have hbyte : ∀ k < 4, ((put32 b offset n) (offset + k)).toNat = n / 256 ^ k % 256 := by
    intro k hk
    unfold put32
    rw [if_pos (by omega), hn, Nat.add_sub_cancel_left, BitVec.toNat_ofNat]
  have h0 := hbyte 0 (by decide)
  have h1 := hbyte 1 (by decide)
  have h2 := hbyte 2 (by decide)
  have h3 := hbyte 3 (by decide)
  unfold get32
  rw [Nat.add_zero] at h0
  rw [h0, h1, h2, h3]
  unfold int32
  omega

/-- What is stored elsewhere does not matter. -/
theorem get32_put32_of_disjoint (b : Block) {offset offset' : ℕ} (value : ℤ)
    (h : offset + 4 ≤ offset' ∨ offset' + 4 ≤ offset) :
    get32 (put32 b offset value) offset' = get32 b offset' := by
  have hbyte : ∀ k < 4, put32 b offset value (offset' + k) = b (offset' + k) := by
    intro k hk
    unfold put32
    rw [if_neg (by omega)]
  have h0 := hbyte 0 (by decide)
  rw [Nat.add_zero] at h0
  unfold get32
  rw [h0, hbyte 1 (by decide), hbyte 2 (by decide), hbyte 3 (by decide)]

/-- An fd in the struct of an ioctl. -/
structure FdField where
  type : ℕ
  nr : ℕ
  offset : ℕ
  /-- Written by the kernel, else read. -/
  out : Bool
deriving DecidableEq, Repr

/-- The ioctl requests with an fd in their struct. -/
def kFdFields : List FdField :=
  [⟨'d'.toNat, 0x2d, 8, true⟩,   -- DRM_IOCTL_PRIME_HANDLE_TO_FD
    ⟨'d'.toNat, 0x2e, 8, false⟩,  -- DRM_IOCTL_PRIME_FD_TO_HANDLE
    ⟨'d'.toNat, 0xC1, 8, true⟩,   -- DRM_IOCTL_SYNCOBJ_HANDLE_TO_FD
    ⟨'d'.toNat, 0xC2, 8, false⟩,  -- DRM_IOCTL_SYNCOBJ_FD_TO_HANDLE
    ⟨'>'.toNat, 3, 32, false⟩,    -- SYNC_IOC_MERGE: fd2
    ⟨'>'.toNat, 3, 36, true⟩,     -- and fence
    ⟨'b'.toNat, 2, 4, true⟩,      -- DMA_BUF_IOCTL_EXPORT_SYNC_FILE
    ⟨'b'.toNat, 3, 4, false⟩]     -- DMA_BUF_IOCTL_IMPORT_SYNC_FILE

/-- The number of the request that submits a batch to the GPU. -/
def kExecbuffer2Nr : ℕ := 0x40 + 0x29

/-- The type byte of an ioctl request. -/
def requestType (request : ℕ) : ℕ := request / 256 % 256

/-- The number of an ioctl request. -/
def requestNr (request : ℕ) : ℕ := request % 256

/-- The fd fields of a request's struct. -/
def fieldsOf (request : ℕ) : List FdField :=
  (kFdFields.filter fun f => f.type = requestType request ∧ f.nr = requestNr request).take 2

/-- The request is an execbuffer, whose fences are fds in `rsvd2`. -/
def isExecbuffer (request : ℕ) : Bool :=
  requestType request = 'd'.toNat && requestNr request = kExecbuffer2Nr

/-- The flag `kExecFenceIn` of an execbuffer struct: bit 16 of the flags at 40. -/
def execFenceIn (b : Block) : Bool := (b 42).getLsbD 0

/-- The flag `kExecFenceOut`: bit 17. -/
def execFenceOut (b : Block) : Bool := (b 42).getLsbD 1

/-! ## What the kernel grants -/

/-- The places of an ioctl's struct where the kernel writes the slot of a new File handle. -/
def outOffsets (request : ℕ) (sent : Block) : List ℕ :=
  ((fieldsOf request).filter (·.out)).map (·.offset) ++
    if isExecbuffer request && execFenceOut sent then [60] else []

/-- The handles that a call grants with an answer, when the answer is no error. -/
def granted (c : KCall) (a : Answer) : List ℤ :=
  if a.ok then
    match c.number with
    | .open | .dup | .socket | .accept => [a.ret]
    | .fcntl => if c.args.head? = some F_DUPFD ∨ c.args.head? = some F_DUPFD_CLOEXEC then [a.ret]
      else []
    | .pipe | .socketpair | .socketRecvmsg => a.handles
    | .ioctl =>
      match c.block, c.args with
      | some sent, request :: _ =>
        ((outOffsets request.toNat sent).map (get32 a.block)).filterMap fun slot =>
          if 0 ≤ slot then some (kFileHandleType + slot) else none
      | _, _ => []
    | _ => []
  else []

/-- The open handles of the process. -/
abbrev Live := Set ℤ

/-- The handles open at the start: the standard streams. -/
def initialLive : Live := {0, 1, 2}

/-- The open handles after a call. A dup2 opens the handle it returns. -/
def Live.after (live : Live) (c : KCall) (a : Answer) : Live :=
  let live := live ∪ {h | h ∈ granted c a}
  if a.ok then
    match c.number with
    | .close => live \ {h | h ∈ c.handles}
    | .dup2 => live ∪ {a.ret}
    | _ => live
  else live

/-- A new handle is not open, and is none of the standard streams' numbers: a handle has its type
in its upper bits. -/
def Fresh (live : Live) (h : ℤ) : Prop := h ∉ live ∧ 2 < h

/-- What the kernel may answer. It grants fresh, distinct handles, two for a pipe or a socket pair
and at most the number asked for with a message. A dup2 onto an open handle returns that handle,
and onto one that is not open returns it or a fresh one. -/
def Allowed (live : Live) (c : KCall) (a : Answer) : Prop :=
  (∀ h ∈ granted c a, Fresh live h) ∧ (granted c a).Nodup ∧
  (a.ok = true →
    match c.number, c.handles, c.args with
    | .pipe, _, _ => a.handles.length = 2
    | .socketpair, _, _ => a.handles.length = 2
    | .socketRecvmsg, _, _ :: capacity :: _ => (a.handles.length : ℤ) ≤ capacity
    | .dup2, [_, target], _ =>
      (target ∈ live → a.ret = target) ∧ (target ∉ live → a.ret = target ∨ Fresh live a.ret)
    | _, _, _ => True)

/-- The open handles after a trace. -/
def Live.run (live : Live) (trace : List (KCall × Answer)) : Live :=
  trace.foldl (fun live step => live.after step.1 step.2) live

/-- Every answer of a trace is allowed. -/
def Legal : Live → List (KCall × Answer) → Prop
  | _, [] => True
  | live, (c, a) :: rest => Allowed live c a ∧ Legal (live.after c a) rest

/-- Without a call the handles stay. -/
@[simp] theorem run_nil (live : Live) : live.run [] = live := rfl

/-- The first call is made, then the others. -/
@[simp] theorem run_cons (live : Live) (c : KCall) (a : Answer)
    (rest : List (KCall × Answer)) :
    live.run ((c, a) :: rest) = (live.after c a).run rest := rfl

/-- Without an answer all are allowed. -/
@[simp] theorem legal_nil (live : Live) : Legal live [] := trivial

/-- All answers are allowed if the first is, and the others behind it. -/
@[simp] theorem legal_cons {live : Live} {c : KCall} {a : Answer}
    {rest : List (KCall × Answer)} :
    Legal live ((c, a) :: rest) ↔ Allowed live c a ∧ Legal (live.after c a) rest := Iff.rfl

/-- What follows on a trace that is run. -/
theorem run_append (live : Live) (t t' : List (KCall × Answer)) :
    live.run (t ++ t') = (live.run t).run t' := List.foldl_append

/-- The answers of two traces in turn. -/
theorem legal_append {live : Live} {t t' : List (KCall × Answer)} :
    Legal live (t ++ t') ↔ Legal live t ∧ Legal (live.run t) t' := by
  induction t generalizing live with
  | nil => simp
  | cons step t ih =>
    obtain ⟨c, a⟩ := step
    simp [ih, and_assoc]

/-- A call and its answer that grant nothing, close nothing and are no successful dup2. -/
def Quiet (c : KCall) (a : Answer) : Prop :=
  granted c a = [] ∧ (a.ok = true → c.number ≠ .close ∧ c.number ≠ .dup2)

/-- The handles that were open stay open over a call that is no successful close, and those that
it grants are added to them. -/
theorem after_of_not_close {c : KCall} {a : Answer} (live : Live)
    (h : a.ok = true → c.number ≠ .close ∧ c.number ≠ .dup2) :
    live.after c a = live ∪ {h | h ∈ granted c a} := by
  unfold Live.after
  show (if a.ok = true then _ else _) = _
  split
  · next hok =>
    obtain ⟨hc, hd⟩ := h hok
    split
    · next heq => exact absurd heq hc
    · next heq => exact absurd heq hd
    · rfl
  · rfl

/-- A quiet call leaves the open handles as they are. -/
theorem after_of_quiet {c : KCall} {a : Answer} (h : Quiet c a) (live : Live) :
    live.after c a = live := by
  rw [after_of_not_close live h.2, h.1]
  ext x
  simp

/-- A trace of quiet calls does too. -/
theorem run_of_quiet {trace : List (KCall × Answer)} (h : ∀ step ∈ trace, Quiet step.1 step.2)
    (live : Live) : live.run trace = live := by
  induction trace generalizing live with
  | nil => rfl
  | cons step t ih =>
    obtain ⟨c, a⟩ := step
    rw [run_cons, after_of_quiet (h (c, a) List.mem_cons_self)]
    exact ih (fun s hs => h s (List.mem_cons_of_mem _ hs)) live

/-- A call that failed is quiet. -/
theorem quiet_of_failed {c : KCall} {a : Answer} (h : a.ok = false) : Quiet c a := by
  unfold Quiet granted
  simp [h]

/-- The kernel calls that neither grant nor release handles. -/
def Syscall.plain : Syscall → Bool
  | .open | .dup | .socket | .accept | .fcntl | .pipe | .socketpair | .socketRecvmsg | .ioctl
  | .close | .dup2 => false
  | _ => true

/-- They are quiet. -/
theorem quiet_of_plain {c : KCall} (h : c.number.plain = true) (a : Answer) : Quiet c a := by
  unfold Quiet granted
  cases hn : c.number <;> rw [hn] at h <;> first
    | exact absurd h (by decide)
    | simp

/-- What a successful close leaves open. -/
theorem after_close (live : Live) {handle : ℤ} {a : Answer} (h : a.ok = true) :
    live.after (kcall .close [handle] []) a = live \ {handle} := by
  unfold Live.after granted
  rw [if_pos h]
  simp only [kcall, h, if_true]
  ext x
  simp only [List.not_mem_nil, List.mem_singleton, Set.mem_sdiff, Set.mem_union, Set.mem_ofPred_eq,
    or_false]
  exact Iff.rfl

end IUserApps.Sysdeps
