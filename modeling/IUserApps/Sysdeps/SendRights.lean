import IUserApps.Checked
import IUserApps.Sysdeps.Stale

/-!
# Fds sent with a message

`unix_msg_send` with the bytes of its control buffer: the walk over the headers, as `CMSG_FIRSTHDR`
and `CMSG_NXTHDR` lead it, and the fds behind those that pass rights, each read checked against the
buffer. How many fds a header has is computed from its length field alone, which may be short of the
header or reach beyond the buffer. `sendsRights_iff` is the exact condition under which that does no
harm. Without a stray header the bytes are sent as the headers of `Messages` are
(`unixMsgSendFrom_eq`).
-/

namespace IUserApps.Sysdeps

open Interact Checked

/-! ## The walk -/

/-- Reads a number of `k` bytes. -/
def readLe (control : List Byte) (off k : ℕ) : Access ℕ := do
  let bytes ← readMany control off k
  .ok (leNat bytes)

/-- Looks up the next `n` fds of a header, or fails with an error number. -/
def collectFds (table : FdTable) (control : List Byte) :
    ℕ → ℕ → List ℤ → Access (Except Errno (List ℤ))
  | 0, _, handles => .ok (.ok handles)
  | n + 1, off, handles =>
    if handles.length = kMaxPassedFds then .ok (.error EINVAL)
    else do
      let bits ← readLe control off 4
      let fd := int32 bits
      if fd < 0 ∨ (kMaxFd : ℤ) ≤ fd ∨ (table fd.toNat = 0 ∧ 2 < fd) then .ok (.error EBADF)
      else collectFds table control n (off + 4) (handles ++ [handleForFd table fd])

/-- A length rounded up to the alignment of headers. -/
def cmsgAlign (len : ℕ) : ℕ := (len + 7) / 8 * 8

/-- `(c->cmsg_len - CMSG_LEN(0)) / sizeof(int)`, in a `size_t`. -/
def fdCount (len : ℕ) : ℕ := u64 ((len : ℤ) - CMSG_LEN 0) / 4

/-- The walk from a header on, which is inside the buffer. -/
def collectRights (table : FdTable) (control : List Byte) (off : ℕ) (handles : List ℤ) :
    Access (Except Errno (List ℤ)) := do
  let level ← readLe control (off + 8) 4
  let type ← readLe control (off + 12) 4
  let len ← readLe control off 8
  let collected ←
    if int32 level ≠ SOL_SOCKET ∨ int32 type ≠ SCM_RIGHTS then .ok (.ok handles)
    else collectFds table control (fdCount len) (off + CMSG_LEN 0) handles
  match collected with
  | .error e => .ok (.error e)
  | .ok handles =>
    -- `CMSG_NXTHDR`: no header follows a length that is none, nor where none fits.
    if _h : len < CMSG_LEN 0 ∨ control.length < off + cmsgAlign len + CMSG_LEN 0 then
      .ok (.ok handles)
    else collectRights table control (off + cmsgAlign len) handles
termination_by control.length - off
decreasing_by
  unfold cmsgAlign CMSG_LEN at *
  omega

/-- The handles that the control buffer asks to pass. -/
def rightsOf (table : FdTable) (control : Option (List Byte)) : Access (Except Errno (List ℤ)) :=
  match control with
  | none => .ok (.ok [])
  | some control =>
    if control.length < CMSG_LEN 0 then .ok (.ok [])
    else collectRights table control 0 []

/-- The call that sends the pieces and the handles. -/
def sendmsgCall (handle : ℤ) (handles : List ℤ) (flags : ℤ) (iov : List (List Byte)) : KCall :=
  kcallWith .socketSendmsg (handle :: handles) [flags] [iov.flatten]

/-- Sends the pieces and the handles; `none` when it is another socket. -/
def sendWithHandles (handle : ℤ) (handles : List ℤ) (flags : ℤ) (iov : List (List Byte))
    (alloc : ℕ → Bool) : Sys (Option ℤ) :=
  if bounceFails alloc iov.length iov.flatten.length then
    Act.throw ENOMEM
  else do
    let ret ← Act.ask (sendmsgCall handle handles flags iov)
    let e := scError ret.ret
    if e = EOPNOTSUPP then
      if handles.length ≠ 0 then Act.throw EINVAL else pure none
    else if e ≠ 0 then
      Act.throw e
    else
      pure (some ret.ret)

/-- Sends to a unix socket with a control buffer; `none` when it is another socket. -/
def unixMsgSendFrom (handle : ℤ) (iov : List (List Byte)) (control : Option (List Byte)) (flags : ℤ)
    (alloc : ℕ → Bool) : Sys (Access (Option ℤ)) := do
  let s ← Act.get
  match rightsOf s.fdTable control with
  | .error fault => pure (.error fault)
  | .ok (.error e) => Act.throw e
  | .ok (.ok handles) => do
    let sent ← sendWithHandles handle handles flags iov alloc
    pure (.ok sent)

/-! ## What the buffer lists -/

/-- A header of a control buffer: its place, and the fields there. -/
structure Header where
  off : ℕ
  len : ℕ
  level : ℤ
  type : ℤ
deriving DecidableEq

/-- The int at a place. -/
def intAt (control : List Byte) (off : ℕ) : ℤ := int32 (leNat ((control.drop off).take 4))

/-- The header at a place. -/
def headerAt (control : List Byte) (off : ℕ) : Header where
  off := off
  len := leNat ((control.drop off).take 8)
  level := intAt control (off + 8)
  type := intAt control (off + 12)

/-- The headers from a place on, each where the one before it ends. -/
def headersFrom (control : List Byte) (off : ℕ) : List Header :=
  if _hfits : off + CMSG_LEN 0 ≤ control.length then
    headerAt control off ::
      if _hlen : CMSG_LEN 0 ≤ (headerAt control off).len then
        headersFrom control (off + cmsgAlign (headerAt control off).len)
      else []
  else []
termination_by control.length - off
decreasing_by
  unfold cmsgAlign CMSG_LEN at *
  omega

/-- `n` ints from a place on. -/
def intsAt (control : List Byte) : ℕ → ℕ → List ℤ
  | 0, _ => []
  | n + 1, off => intAt control off :: intsAt control n (off + 4)

/-- The header passes rights. -/
def Header.IsRights (h : Header) : Prop := h.level = SOL_SOCKET ∧ h.type = SCM_RIGHTS

/-- The header lies inside the buffer, with all that its length says. -/
def Header.Inside (h : Header) (control : List Byte) : Prop :=
  CMSG_LEN 0 ≤ h.len ∧ h.off + h.len ≤ control.length

instance (h : Header) : Decidable h.IsRights := inferInstanceAs (Decidable (_ ∧ _))

instance (h : Header) (control : List Byte) : Decidable (h.Inside control) :=
  inferInstanceAs (Decidable (_ ∧ _))

/-- The fds of the headers that pass rights and lie inside the buffer. -/
def listedIn (control : List Byte) (headers : List Header) : List ℤ :=
  (headers.filter fun h => h.IsRights ∧ h.Inside control).flatMap fun h =>
    intsAt control ((h.len - CMSG_LEN 0) / 4) (h.off + CMSG_LEN 0)

/-- The fds that a control buffer lists. -/
def listedFds (control : Option (List Byte)) : List ℤ :=
  match control with
  | none => []
  | some control => listedIn control (headersFrom control 0)

/-- What a send does with the fds: it fails and has sent nothing, or sends the handles of just those
that are listed, which are open and not too many. -/
def SendsRights (table : FdTable) (handle flags : ℤ) (iov : List (List Byte))
    (control : Option (List Byte)) (trace : List (KCall × Answer))
    (r : Except Errno (Access (Option ℤ))) : Prop :=
  (trace = [] ∧ ∃ e, r = .error e) ∨
    ((listedFds control).length ≤ kMaxPassedFds ∧ (∀ fd ∈ listedFds control, ¬NotOpen table fd) ∧
      (∀ fault, r ≠ .ok (.error fault)) ∧
      ∃ a, trace =
        [(sendmsgCall handle ((listedFds control).map (handleForFd table)) flags iov, a)])

/-- The fds of a header that the walk can read inside the buffer. -/
def Header.within (h : Header) (control : List Byte) : List ℤ :=
  intsAt control (min (fdCount h.len) ((control.length - (h.off + CMSG_LEN 0)) / 4))
    (h.off + CMSG_LEN 0)

/-- A header does no harm when it lies inside the buffer; when by its length field it has no fd; or
when the fds listed and those of it that can be read are refused: one is not open, or they are too
many at the first that lies outside. -/
def Header.Harmless (table : FdTable) (control : List Byte) (h : Header) : Prop :=
  h.Inside control ∨ fdCount h.len = 0 ∨
    (∃ fd ∈ listedFds (some control) ++ h.within control, NotOpen table fd) ∨
    kMaxPassedFds < (listedFds (some control)).length +
      min (fdCount h.len) ((control.length - (h.off + CMSG_LEN 0)) / 4 + 1)

/-- Every header that passes rights does no harm. -/
def HarmlessRights (table : FdTable) (control : Option (List Byte)) : Prop :=
  ∀ bytes, control = some bytes → ∀ h ∈ headersFrom bytes 0, h.IsRights → h.Harmless table bytes

/-! ## Fds of one header -/

variable {table : FdTable} {control : List Byte} {handles : List ℤ} {off : ℕ}

/-- A number that lies in the buffer is read. -/
theorem readLe_ok {k : ℕ} (h : off + k ≤ control.length) :
    readLe control off k = .ok (leNat ((control.drop off).take k)) := by
  unfold readLe
  rw [(readMany_safe h).eq, ok_bind]

/-- A number that does not is an access outside. -/
theorem readLe_error {k : ℕ} (h : control.length < off + k) (hk : k ≠ 0) :
    ∃ fault, readLe control off k = .error fault := by
  obtain ⟨fault, hfault⟩ := readMany_error h hk
  refine ⟨fault, ?_⟩
  unfold readLe
  rw [hfault]
  rfl

/-- Two lists of fds are looked up one after the other. -/
theorem collectHandles_append (a b : List ℤ) : collectHandles table (a ++ b) handles =
    (collectHandles table a handles).bind (collectHandles table b) := by
  induction a generalizing handles with
  | nil => rfl
  | cons fd a ih =>
    rw [List.cons_append, collectHandles, collectHandles]
    split
    · rfl
    · split
      · rfl
      · exact ih

/-- The fds are looked up when they are open and not too many. -/
theorem collectHandles_ok {fds found : List ℤ} (hlen : handles.length ≤ kMaxPassedFds) :
    collectHandles table fds handles = .ok found ↔
      handles.length + fds.length ≤ kMaxPassedFds ∧ (∀ fd ∈ fds, ¬NotOpen table fd) ∧
        found = handles ++ fds.map (handleForFd table) := by
  induction fds generalizing handles with
  | nil =>
    rw [collectHandles, Except.ok.injEq]
    simp [hlen, eq_comm]
  | cons fd fds ih =>
    rw [collectHandles, List.length_cons]
    by_cases hfull : handles.length = kMaxPassedFds
    · rw [if_pos hfull]
      refine iff_of_false (fun h => nomatch h) ?_
      rintro ⟨hle, -⟩
      omega
    · rw [if_neg hfull]
      by_cases hbad : NotOpen table fd
      · rw [if_pos (show fd < 0 ∨ (kMaxFd : ℤ) ≤ fd ∨ (table fd.toNat = 0 ∧ 2 < fd) from hbad)]
        refine iff_of_false (fun h => nomatch h) ?_
        rintro ⟨-, hopen, -⟩
        exact hopen fd List.mem_cons_self hbad
      · rw [if_neg (show ¬(fd < 0 ∨ (kMaxFd : ℤ) ≤ fd ∨ (table fd.toNat = 0 ∧ 2 < fd)) from hbad),
          ih (by rw [List.length_append, List.length_singleton]; omega)]
        have hcount : handles.length + 1 + fds.length = handles.length + (fds.length + 1) := by
          omega
        simp [hbad, hcount]

/-- The first fds of a header and then the rest. -/
theorem collectFds_add (k n off : ℕ) (handles : List ℤ) :
    collectFds table control (k + n) off handles =
      collectFds table control k off handles >>= fun
        | .error e => .ok (.error e)
        | .ok found => collectFds table control n (off + 4 * k) found := by
  induction k generalizing off handles with
  | zero =>
    rw [Nat.zero_add]
    rfl
  | succ k ih =>
    have hplace : off + 4 + 4 * k = off + 4 * (k + 1) := by omega
    rw [Nat.add_right_comm, collectFds, collectFds]
    split
    · rfl
    · cases readLe control off 4 with
      | error fault => rfl
      | ok bits =>
        rw [ok_bind, ok_bind]
        dsimp only
        split
        · rfl
        · rw [ih, hplace]

/-- Inside the buffer the fds of a header are looked up one after another. -/
theorem collectFds_inside {n : ℕ} (h : off + 4 * n ≤ control.length) :
    collectFds table control n off handles =
      .ok (collectHandles table (intsAt control n off) handles) := by
  induction n generalizing off handles with
  | zero => rfl
  | succ n ih =>
    rw [collectFds, intsAt, collectHandles]
    split
    · rfl
    · have hint : int32 (leNat ((control.drop off).take 4)) = intAt control off := rfl
      rw [readLe_ok (by omega), ok_bind]
      dsimp only
      rw [hint]
      by_cases hbad : intAt control off < 0 ∨ (kMaxFd : ℤ) ≤ intAt control off ∨
          (table (intAt control off).toNat = 0 ∧ 2 < intAt control off)
      · rw [if_pos hbad, if_pos hbad]
      · rw [if_neg hbad, if_neg hbad, ih (by omega)]

/-- As many ints are read as are asked for. -/
theorem length_intsAt (n off : ℕ) : (intsAt control n off).length = n := by
  induction n generalizing off with
  | zero => rfl
  | succ n ih => rw [intsAt, List.length_cons, ih]

/-! ## The walk over the headers -/

/-- The header passes rights and has fds, but does not lie inside the buffer. -/
def Header.Stray (h : Header) (control : List Byte) : Prop :=
  h.IsRights ∧ ¬h.Inside control ∧ fdCount h.len ≠ 0

instance (h : Header) (control : List Byte) : Decidable (h.Stray control) :=
  inferInstanceAs (Decidable (_ ∧ _))

/-- The fds listed by headers are looked up, and then those of a stray one. -/
def collectListed (table : FdTable) (control : List Byte) (headers : List Header)
    (handles : List ℤ) : Access (Except Errno (List ℤ)) :=
  match collectHandles table (listedIn control headers) handles with
  | .error e => .ok (.error e)
  | .ok found =>
    match headers.find? fun h => h.Stray control with
    | none => .ok (.ok found)
    | some h => collectFds table control (fdCount h.len) (h.off + CMSG_LEN 0) found

/-- A header that is long enough has an fd in every four bytes. -/
theorem fdCount_of_le {len : ℕ} (h : CMSG_LEN 0 ≤ len) (hlt : len < 2^64) :
    fdCount len = (len - CMSG_LEN 0) / 4 := by
  unfold fdCount u64
  unfold CMSG_LEN at *
  omega

/-- A number of `n` bytes is below `256 ^ n`. -/
theorem leNat_lt (bytes : List Byte) : leNat bytes < 256 ^ bytes.length := by
  induction bytes with
  | nil => exact Nat.one_pos
  | cons b bytes ih =>
    have hb := b.isLt
    rw [leNat, List.length_cons, Nat.pow_succ]
    omega

/-- A length field is a `size_t`. -/
theorem len_headerAt_lt (control : List Byte) (off : ℕ) : (headerAt control off).len < 2^64 := by
  have hlt := leNat_lt ((control.drop off).take 8)
  have hle : 256 ^ ((control.drop off).take 8).length ≤ 256 ^ 8 :=
    Nat.pow_le_pow_right (by decide) (List.length_take_le ..)
  exact Nat.lt_of_lt_of_le hlt hle

/-- One step of the walk. -/
theorem collectRights_step (h : off + CMSG_LEN 0 ≤ control.length) :
    collectRights table control off handles =
      (if (headerAt control off).IsRights then
        collectFds table control (fdCount (headerAt control off).len) (off + CMSG_LEN 0) handles
      else .ok (.ok handles)) >>= fun
      | .error e => .ok (.error e)
      | .ok found =>
        if (headerAt control off).len < CMSG_LEN 0 ∨
            control.length < off + cmsgAlign (headerAt control off).len + CMSG_LEN 0 then
          .ok (.ok found)
        else collectRights table control (off + cmsgAlign (headerAt control off).len) found := by
  unfold CMSG_LEN at h
  rw [collectRights, readLe_ok (by omega), ok_bind, readLe_ok (by omega), ok_bind,
    readLe_ok (by omega), ok_bind]
  have hnot : (int32 (leNat ((control.drop (off + 8)).take 4)) ≠ SOL_SOCKET ∨
      int32 (leNat ((control.drop (off + 12)).take 4)) ≠ SCM_RIGHTS) ↔
      ¬(headerAt control off).IsRights := not_and_or.symm
  have hlen : leNat ((control.drop off).take 8) = (headerAt control off).len := rfl
  simp only [hnot, hlen, ite_not, dite_eq_ite]
  split <;> rfl

/-- The headers from one that is inside the buffer on. -/
theorem headersFrom_step (h : off + CMSG_LEN 0 ≤ control.length) :
    headersFrom control off = headerAt control off ::
      if (headerAt control off).len < CMSG_LEN 0 ∨
          control.length < off + cmsgAlign (headerAt control off).len + CMSG_LEN 0 then []
      else headersFrom control (off + cmsgAlign (headerAt control off).len) := by
  rw [headersFrom, dif_pos h]
  congr 1
  by_cases hlen : CMSG_LEN 0 ≤ (headerAt control off).len
  · rw [dif_pos hlen]
    split
    · next hstop =>
      rw [headersFrom, dif_neg (by omega)]
    · rfl
  · rw [dif_neg hlen, if_pos (Or.inl (Nat.lt_of_not_le hlen))]

/-- A header that does not lie inside the buffer is the last one. -/
theorem inside_of_continues (hgo : ¬((headerAt control off).len < CMSG_LEN 0 ∨
    control.length < off + cmsgAlign (headerAt control off).len + CMSG_LEN 0)) :
    (headerAt control off).Inside control := by
  obtain ⟨hlen, hnext⟩ := not_or.1 hgo
  refine ⟨Nat.le_of_not_lt hlen, ?_⟩
  show off + (headerAt control off).len ≤ control.length
  unfold cmsgAlign at hnext
  omega

/-- What holds at the last header, and at a header when at the next one, holds at every header inside
the buffer. -/
theorem headers_induction {P : ∀ off, off + CMSG_LEN 0 ≤ control.length → Prop}
    (last : ∀ off hfits, ((headerAt control off).len < CMSG_LEN 0 ∨
      control.length < off + cmsgAlign (headerAt control off).len + CMSG_LEN 0) → P off hfits)
    (next : ∀ off hfits, (hgo : ¬((headerAt control off).len < CMSG_LEN 0 ∨
      control.length < off + cmsgAlign (headerAt control off).len + CMSG_LEN 0)) →
      P (off + cmsgAlign (headerAt control off).len) (Nat.le_of_not_lt (not_or.1 hgo).2) →
      P off hfits)
    (off : ℕ) (hfits : off + CMSG_LEN 0 ≤ control.length) : P off hfits := by
  induction hn : control.length - off using Nat.strong_induction_on generalizing off with
  | _ n ih =>
    by_cases hstop : (headerAt control off).len < CMSG_LEN 0 ∨
        control.length < off + cmsgAlign (headerAt control off).len + CMSG_LEN 0
    · exact last off hfits hstop
    · -- A header has a length, so the next one is closer to the end.
      have hless : control.length - (off + cmsgAlign (headerAt control off).len) < n := by
        obtain ⟨hlen, -⟩ := not_or.1 hstop
        unfold cmsgAlign CMSG_LEN at *
        omega
      exact next off hfits hstop (ih _ hless _ _ rfl)

/-! ### One more header -/

variable {h : Header} {headers : List Header}

/-- The first header's fds come first, if it passes rights and lies inside. -/
theorem listedIn_cons (h : Header) (headers : List Header) : listedIn control (h :: headers) =
    (if h.IsRights ∧ h.Inside control then
      intsAt control ((h.len - CMSG_LEN 0) / 4) (h.off + CMSG_LEN 0) else []) ++
      listedIn control headers := by
  unfold listedIn
  by_cases hh : h.IsRights ∧ h.Inside control
  · rw [List.filter_cons_of_pos (by simpa using hh), List.flatMap_cons, if_pos hh]
  · rw [List.filter_cons_of_neg (by simpa using hh), if_neg hh, List.nil_append]

/-- A header that passes no rights, or has no fd, is passed over. -/
theorem collectListed_skip (hskip : ¬h.IsRights ∨ (¬h.Inside control ∧ fdCount h.len = 0)) :
    collectListed table control (h :: headers) handles =
      collectListed table control headers handles := by
  have hlisted : ¬(h.IsRights ∧ h.Inside control) := by tauto
  have hstray : ¬h.Stray control := by
    unfold Header.Stray
    tauto
  unfold collectListed
  rw [listedIn_cons, if_neg hlisted, List.nil_append,
    List.find?_cons_of_neg (by simpa using hstray)]

/-- The fds of a header inside come first. -/
theorem collectListed_inside (hrights : h.IsRights) (hinside : h.Inside control)
    (hlt : h.len < 2^64) :
    collectListed table control (h :: headers) handles =
      collectFds table control (fdCount h.len) (h.off + CMSG_LEN 0) handles >>= fun
        | .error e => .ok (.error e)
        | .ok found => collectListed table control headers found := by
  have hstray : ¬h.Stray control := fun hs => hs.2.1 hinside
  have hcount := fdCount_of_le hinside.1 hlt
  have hfits : h.off + CMSG_LEN 0 + 4 * fdCount h.len ≤ control.length := by
    obtain ⟨hle, hend⟩ := hinside
    unfold CMSG_LEN at *
    omega
  rw [collectFds_inside hfits, ok_bind]
  unfold collectListed
  rw [listedIn_cons, if_pos ⟨hrights, hinside⟩, ← hcount, collectHandles_append,
    List.find?_cons_of_neg (by simpa using hstray)]
  cases collectHandles table (intsAt control (fdCount h.len) (h.off + CMSG_LEN 0)) handles <;> rfl

/-- A stray header is the last. -/
theorem collectListed_stray (hstray : h.Stray control) : collectListed table control [h] handles =
    collectFds table control (fdCount h.len) (h.off + CMSG_LEN 0) handles := by
  have hlisted : ¬(h.IsRights ∧ h.Inside control) := fun hs => hstray.2.1 hs.2
  unfold collectListed
  rw [listedIn_cons, if_neg hlisted, List.find?_cons_of_pos (by simpa using hstray)]
  rfl

/-- The walk looks up what the headers list, and then what a stray header has. -/
theorem collectRights_eq (hfits : off + CMSG_LEN 0 ≤ control.length) (handles : List ℤ) :
    collectRights table control off handles =
      collectListed table control (headersFrom control off) handles := by
  induction off, hfits using headers_induction generalizing handles with
  | last off hfits hstop =>
    rw [collectRights_step hfits, headersFrom_step hfits]
    simp only [if_pos hstop]
    have hcollect : ∀ x : Access (Except Errno (List ℤ)), (x >>= fun
        | .error e => .ok (.error e)
        | .ok found => .ok (.ok found)) = x := by
      rintro (fault | e | found) <;> rfl
    rw [hcollect]
    by_cases hrights : (headerAt control off).IsRights
    · rw [if_pos hrights]
      by_cases hinside : (headerAt control off).Inside control
      · rw [collectListed_inside hrights hinside (len_headerAt_lt control off)]
        exact (hcollect _).symm
      · -- Only the last header can be stray.
        by_cases hcount : fdCount (headerAt control off).len = 0
        · rw [collectListed_skip (Or.inr ⟨hinside, hcount⟩), hcount]
          rfl
        · exact (collectListed_stray ⟨hrights, hinside, hcount⟩).symm
    · rw [if_neg hrights, collectListed_skip (Or.inl hrights)]
      rfl
  | next off hfits hgo ih =>
    rw [collectRights_step hfits, headersFrom_step hfits]
    simp only [if_neg hgo, ih]
    by_cases hrights : (headerAt control off).IsRights
    · rw [if_pos hrights, collectListed_inside hrights (inside_of_continues hgo)
        (len_headerAt_lt control off)]
      rfl
    · rw [if_neg hrights, collectListed_skip (Or.inl hrights)]
      rfl

/-- What a control buffer asks to pass. -/
theorem rightsOf_eq (control : List Byte) : rightsOf table (some control) =
    collectListed table control (headersFrom control 0) [] := by
  unfold rightsOf
  dsimp only
  split
  · next hshort =>
    rw [headersFrom, dif_neg (by omega)]
    rfl
  · exact collectRights_eq (by omega) []

/-! ## What does no harm -/

/-- Every fd that is looked up adds a handle. -/
theorem length_of_collectFds {n : ℕ} {found : List ℤ}
    (h : collectFds table control n off handles = .ok (.ok found)) :
    found.length = handles.length + n := by
  induction n generalizing off handles with
  | zero =>
    obtain rfl := Except.ok.inj (Except.ok.inj h)
    rfl
  | succ n ih =>
    rw [collectFds] at h
    split at h
    · exact nomatch Except.ok.inj h
    · obtain ⟨bits, -, h⟩ := ok_of_bind h
      dsimp only at h
      split at h
      · exact nomatch Except.ok.inj h
      · have hlength := ih h
        rw [List.length_append, List.length_singleton] at hlength
        omega

/-- The fds of a header are refused when one that can be read inside the buffer is not open, or when
they are too many at the first that lies outside. -/
theorem collectFds_refused {n : ℕ} (hlen : handles.length ≤ kMaxPassedFds)
    (hoff : off ≤ control.length) :
    (∃ e, collectFds table control n off handles = .ok (.error e)) ↔
      (∃ fd ∈ intsAt control (min n ((control.length - off) / 4)) off, NotOpen table fd) ∨
        kMaxPassedFds < handles.length + min n ((control.length - off) / 4 + 1) := by
  set k := (control.length - off) / 4 with hk
  have hinside : off + 4 * k ≤ control.length := by omega
  -- Whether `j` ints inside the buffer are refused.
  have hints : ∀ j, (∃ e, collectHandles table (intsAt control j off) handles = .error e) ↔
      (∃ fd ∈ intsAt control j off, NotOpen table fd) ∨ kMaxPassedFds < handles.length + j := by
    intro j
    have hok : ∀ found, collectHandles table (intsAt control j off) handles = .ok found ↔ _ :=
      fun found => collectHandles_ok hlen
    cases hc : collectHandles table (intsAt control j off) handles with
    | error e =>
      refine iff_of_true ⟨e, rfl⟩ ?_
      by_contra hnot
      obtain ⟨hopen, hle⟩ := not_or.1 hnot
      have hfound := (hok _).2 ⟨by rw [length_intsAt]; omega,
        fun fd hfd hbad => hopen ⟨fd, hfd, hbad⟩, rfl⟩
      rw [hc] at hfound
      exact nomatch hfound
    | ok found =>
      refine iff_of_false (fun ⟨e, he⟩ => nomatch he) ?_
      obtain ⟨hle, hopen, -⟩ := (hok found).1 hc
      rw [length_intsAt] at hle
      rintro (⟨fd, hfd, hbad⟩ | hlt)
      · exact hopen fd hfd hbad
      · omega
  by_cases hn : n ≤ k
  · rw [collectFds_inside (by omega), Nat.min_eq_left hn, Nat.min_eq_left (Nat.le_succ_of_le hn)]
    simpa using hints n
  · obtain ⟨m, rfl⟩ : ∃ m, n = k + (m + 1) := ⟨n - k - 1, by omega⟩
    rw [collectFds_add, collectFds_inside hinside, ok_bind, Nat.min_eq_right (by omega),
      Nat.min_eq_right (by omega)]
    cases hc : collectHandles table (intsAt control k off) handles with
    | error e =>
      refine iff_of_true ⟨e, rfl⟩ ?_
      rcases (hints k).1 ⟨e, hc⟩ with hbad | hlt
      · exact Or.inl hbad
      · exact Or.inr (Nat.lt_succ_of_lt hlt)
    | ok found =>
      obtain ⟨hle, hopen, rfl⟩ := (collectHandles_ok hlen).1 hc
      rw [length_intsAt] at hle
      dsimp only
      rw [collectFds, List.length_append, List.length_map, length_intsAt]
      by_cases hfull : handles.length + k = kMaxPassedFds
      · rw [if_pos hfull]
        exact iff_of_true ⟨EINVAL, rfl⟩ (Or.inr (by omega))
      · have hpast : control.length < off + 4 * k + 4 := by omega
        obtain ⟨fault, hfault⟩ := readLe_error hpast (by decide)
        rw [if_neg hfull, hfault]
        refine iff_of_false (fun ⟨e, he⟩ => nomatch he) ?_
        rintro (⟨fd, hfd, hbad⟩ | hlt)
        · exact hopen fd hfd hbad
        · omega

/-- The headers are inside the buffer, and a stray one is the first that is stray. -/
theorem headersFrom_inside {h : Header} (hmem : h ∈ headersFrom control off) :
    h.off + CMSG_LEN 0 ≤ control.length ∧ (h.Stray control →
      (headersFrom control off).find? (fun h => h.Stray control) = some h) := by
  have hfits : off + CMSG_LEN 0 ≤ control.length := by
    by_contra hshort
    rw [headersFrom, dif_neg hshort] at hmem
    exact List.not_mem_nil hmem
  induction off, hfits using headers_induction with
  | last off hfits hstop =>
    rw [headersFrom_step hfits, if_pos hstop] at hmem ⊢
    obtain rfl := List.mem_singleton.1 hmem
    exact ⟨hfits, fun hstray => List.find?_cons_of_pos (by simpa using hstray)⟩
  | next off hfits hgo ih =>
    rw [headersFrom_step hfits, if_neg hgo] at hmem ⊢
    have hinside := inside_of_continues hgo
    rcases List.mem_cons.1 hmem with rfl | hmem
    · exact ⟨hfits, fun hstray => absurd hinside hstray.2.1⟩
    · obtain ⟨hin, hfind⟩ := ih hmem
      refine ⟨hin, fun hstray => ?_⟩
      rw [List.find?_cons_of_neg, hfind hstray]
      simp only [decide_eq_true_eq]
      exact fun hs => hs.2.1 hinside

/-! ## What is sent -/

variable {s s' : Libc} {trace : List (KCall × Answer)}

/-- With its handles a message goes out in one call, if there is memory for it. -/
theorem runs_sendWithHandles {handle flags : ℤ} {iov : List (List Byte)} {alloc : ℕ → Bool}
    {r : Except Errno (Option ℤ)}
    (h : Act.Runs (sendWithHandles handle handles flags iov alloc) s trace r s') :
    (trace = [] ∧ ∃ e, r = .error e) ∨
      ∃ a, trace = [(sendmsgCall handle handles flags iov, a)] := by
  unfold sendWithHandles at h
  split at h
  · obtain ⟨rfl, rfl, -⟩ := Act.runs_throw.1 h
    exact Or.inl ⟨rfl, ENOMEM, rfl⟩
  · obtain ⟨a, rest, rfl, h'⟩ := Act.runs_ask_bind.1 h
    have hrest : rest = [] := by
      dsimp only at h'
      split at h'
      · split at h'
        · exact (Act.runs_throw.1 h').1
        · exact (Act.runs_pure.1 h').1
      · split at h'
        · exact (Act.runs_throw.1 h').1
        · exact (Act.runs_pure.1 h').1
    rw [hrest]
    exact Or.inr ⟨a, rfl⟩

/-- The runs of a send by what the control buffer asks to pass. -/
theorem runs_unixMsgSendFrom {handle flags : ℤ} {iov : List (List Byte)}
    {control : Option (List Byte)} {alloc : ℕ → Bool} {r : Except Errno (Access (Option ℤ))}
    (h : Act.Runs (unixMsgSendFrom handle iov control flags alloc) s trace r s') :
    (∃ fault, rightsOf s.fdTable control = .error fault ∧ trace = [] ∧ r = .ok (.error fault)) ∨
      (∃ e, rightsOf s.fdTable control = .ok (.error e) ∧ trace = [] ∧ r = .error e) ∨
      ∃ handles, rightsOf s.fdTable control = .ok (.ok handles) ∧
        ((trace = [] ∧ ∃ e, r = .error e) ∨
          ((∀ fault, r ≠ .ok (.error fault)) ∧
            ∃ a, trace = [(sendmsgCall handle handles flags iov, a)])) := by
  unfold unixMsgSendFrom at h
  rw [Act.runs_get_bind] at h
  cases hrights : rightsOf s.fdTable control with
  | error fault =>
    rw [hrights] at h
    obtain ⟨rfl, rfl, -⟩ := Act.runs_pure.1 h
    exact Or.inl ⟨fault, rfl, rfl, rfl⟩
  | ok collected =>
    rw [hrights] at h
    cases collected with
    | error e =>
      obtain ⟨rfl, rfl, -⟩ := Act.runs_throw.1 h
      exact Or.inr (Or.inl ⟨e, rfl, rfl, rfl⟩)
    | ok handles =>
      refine Or.inr (Or.inr ⟨handles, rfl, ?_⟩)
      -- The send fails, or its answer is passed on.
      rcases Act.runs_bind.1 h with ⟨e, h1, rfl⟩ | ⟨sent, mid, first, last, h1, h2, rfl⟩
      · rcases runs_sendWithHandles h1 with ⟨rfl, -⟩ | ⟨a, rfl⟩
        · exact Or.inl ⟨rfl, e, rfl⟩
        · exact Or.inr ⟨fun fault hr => (nomatch hr), a, rfl⟩
      · obtain ⟨rfl, rfl, -⟩ := Act.runs_pure.1 h2
        rw [List.append_nil]
        rcases runs_sendWithHandles h1 with ⟨rfl, e, he⟩ | ⟨a, rfl⟩
        · exact nomatch he
        · exact Or.inr ⟨fun fault hr => (nomatch Except.ok.inj hr), a, rfl⟩

/-- The answer to a send of nothing. -/
def emptySent : Answer := ⟨0, [], fun _ => 0, 0, []⟩

/-- A send that reads outside the control buffer makes no call. -/
theorem exec_fault {control : Option (List Byte)} {fault : Fault}
    (h : rightsOf s.fdTable control = .error fault) :
    (unixMsgSendFrom 0 [[]] control 0 fun _ => true).exec s (fun _ => emptySent) =
      ((.ok (.error fault), s), []) := by
  rw [unixMsgSendFrom, Act.exec_get_bind, h]
  rfl

/-- A send of one empty piece passes what the buffer asks for. -/
theorem exec_sent {control : Option (List Byte)}
    (h : rightsOf s.fdTable control = .ok (.ok handles)) :
    (unixMsgSendFrom 0 [[]] control 0 fun _ => true).exec s (fun _ => emptySent) =
      ((.ok (.ok (some 0)), s), [(sendmsgCall 0 handles 0 [[]], emptySent)]) := by
  rw [unixMsgSendFrom, Act.exec_get_bind, h]
  rfl

/-- A header that does no harm lets nothing through that is not listed. -/
theorem collectListed_harmless (hharmless : HarmlessRights table (some control)) :
    (∃ e, rightsOf table (some control) = .ok (.error e)) ∨
      ((listedFds (some control)).length ≤ kMaxPassedFds ∧
        (∀ fd ∈ listedFds (some control), ¬NotOpen table fd) ∧
        rightsOf table (some control) =
          .ok (.ok ((listedFds (some control)).map (handleForFd table)))) := by
  have hlisted : listedFds (some control) = listedIn control (headersFrom control 0) := rfl
  rw [rightsOf_eq, collectListed, ← hlisted]
  cases hc : collectHandles table (listedFds (some control)) [] with
  | error e => exact Or.inl ⟨e, rfl⟩
  | ok found =>
    obtain ⟨hle, hopen, rfl⟩ := (collectHandles_ok (Nat.zero_le _)).1 hc
    rw [List.length_nil, Nat.zero_add] at hle
    rw [List.nil_append]
    dsimp only
    cases hfind : (headersFrom control 0).find? fun h => h.Stray control with
    | none => exact Or.inr ⟨hle, hopen, rfl⟩
    | some h =>
      -- What makes the stray header harmless is what refuses it.
      have hmem := List.mem_of_find?_eq_some hfind
      have hstray : h.Stray control := by simpa using List.find?_some hfind
      have hmap : ((listedFds (some control)).map (handleForFd table)).length =
          (listedFds (some control)).length := List.length_map ..
      refine Or.inl ((collectFds_refused (by omega) (headersFrom_inside hmem).1).2 ?_)
      rw [hmap]
      rcases hharmless control rfl h hmem hstray.1 with hin | hzero | ⟨fd, hfd, hbad⟩ | hmany
      · exact absurd hin hstray.2.1
      · exact absurd hzero hstray.2.2
      · rcases List.mem_append.1 hfd with hfd | hfd
        · exact absurd hbad (hopen fd hfd)
        · exact Or.inl ⟨fd, hfd, hbad⟩
      · exact Or.inr hmany

/-- Whatever a stray header passes is more than what is listed. -/
theorem harmless_of_refused {h : Header} (hmem : h ∈ headersFrom control 0)
    (hstray : h.Stray control)
    (hsends : (∃ e, rightsOf table (some control) = .ok (.error e)) ∨
      rightsOf table (some control) =
        .ok (.ok ((listedFds (some control)).map (handleForFd table)))) :
    h.Harmless table control := by
  have hlisted : listedFds (some control) = listedIn control (headersFrom control 0) := rfl
  obtain ⟨hoff, hfind⟩ := headersFrom_inside hmem
  rw [rightsOf_eq, collectListed, ← hlisted, hfind hstray] at hsends
  have hhandles : ([] : List ℤ).length ≤ kMaxPassedFds := Nat.zero_le _
  -- The stray header is read only when the listed fds are not refused already.
  by_cases hc : (listedFds (some control)).length ≤ kMaxPassedFds ∧
      ∀ fd ∈ listedFds (some control), ¬NotOpen table fd
  · obtain ⟨hle, hopen⟩ := hc
    have hfound := (collectHandles_ok hhandles).2
      ⟨by rwa [List.length_nil, Nat.zero_add], hopen, rfl⟩
    have hmap : ((listedFds (some control)).map (handleForFd table)).length =
        (listedFds (some control)).length := List.length_map ..
    rw [hfound, List.nil_append] at hsends
    dsimp only at hsends
    rcases hsends with herror | hall
    · rcases (collectFds_refused (by omega) hoff).1 herror with ⟨fd, hfd, hbad⟩ | hmany
      · exact Or.inr (Or.inr (Or.inl ⟨fd, List.mem_append_right _ hfd, hbad⟩))
      · rw [hmap] at hmany
        exact Or.inr (Or.inr (Or.inr hmany))
    · have hlength := length_of_collectFds hall
      exact absurd (Nat.left_eq_add.1 hlength) hstray.2.2
  · rcases not_and_or.1 hc with hmany | hbad
    · have hpos : 0 < fdCount h.len := Nat.pos_of_ne_zero hstray.2.2
      exact Or.inr (Or.inr (Or.inr (by omega)))
    · simp only [not_forall, not_not] at hbad
      obtain ⟨fd, hfd, hbad⟩ := hbad
      exact Or.inr (Or.inr (Or.inl ⟨fd, List.mem_append_left _ hfd, hbad⟩))

/-- The control headers of a buffer, each with the fds it lists. -/
def cmsgsOf (control : List Byte) : List Cmsg :=
  (headersFrom control 0).map fun h =>
    ⟨h.level, h.type,
      if h.Inside control then intsAt control ((h.len - CMSG_LEN 0) / 4) (h.off + CMSG_LEN 0)
      else []⟩

/-- The fds of the headers are those that the buffer lists. -/
theorem passedFds_cmsgsOf (name : List Byte) (iov : List (List Byte)) (control : List Byte) :
    passedFds ⟨name, iov, cmsgsOf control⟩ = listedFds (some control) := by
  unfold passedFds cmsgsOf listedFds listedIn
  dsimp only
  induction headersFrom control 0 with
  | nil => rfl
  | cons h headers ih =>
    rw [List.map_cons]
    by_cases hrights : h.level = SOL_SOCKET ∧ h.type = SCM_RIGHTS
    · rw [List.filter_cons_of_pos (by simpa using hrights), List.flatMap_cons, ih]
      by_cases hinside : h.Inside control
      · rw [List.filter_cons_of_pos (by simpa using ⟨hrights, hinside⟩), List.flatMap_cons,
          if_pos hinside]
      · rw [List.filter_cons_of_neg (by simp [hinside]), if_neg hinside, List.nil_append]
    · have hnot : ¬h.IsRights := hrights
      rw [List.filter_cons_of_neg (by simpa using hrights), ih,
        List.filter_cons_of_neg (by simp [hnot])]

/-- From a buffer without a stray header a message is sent as `unixMsgSend` sends it. -/
theorem unixMsgSendFrom_eq (hstray : ∀ h ∈ headersFrom control 0, ¬h.Stray control)
    (handle flags : ℤ) (name : List Byte) (iov : List (List Byte)) (alloc : ℕ → Bool) :
    unixMsgSendFrom handle iov (some control) flags alloc =
      Except.ok <$> unixMsgSend handle ⟨name, iov, cmsgsOf control⟩ flags alloc := by
  have hfind : (headersFrom control 0).find? (fun h => h.Stray control) = none := by
    rw [List.find?_eq_none]
    intro h hmem
    simpa using hstray h hmem
  unfold unixMsgSendFrom unixMsgSend
  rw [map_bind]
  congr 1
  funext s
  have hlisted : listedIn control (headersFrom control 0) = listedFds (some control) := rfl
  rw [rightsOf_eq, collectListed, hfind, hlisted, passedFds_cmsgsOf]
  cases collectHandles s.fdTable (listedFds (some control)) [] with
  | error e => rfl
  | ok handles => rfl

/-- The handles of just the listed fds are sent, and nothing outside the control buffer is read,
exactly when no header that passes rights does harm. -/
theorem sendsRights_iff (s : Libc) (control : Option (List Byte)) :
    (∀ handle iov flags alloc trace r s',
      Act.Runs (unixMsgSendFrom handle iov control flags alloc) s trace r s' →
        SendsRights s.fdTable handle flags iov control trace r) ↔
      HarmlessRights s.fdTable control := by
  constructor
  · rintro hsends bytes rfl h hmem hrights
    by_cases hinside : h.Inside bytes
    · exact Or.inl hinside
    by_cases hcount : fdCount h.len = 0
    · exact Or.inr (Or.inl hcount)
    -- What the send of one empty piece does tells what the buffer asks to pass.
    refine harmless_of_refused hmem ⟨hrights, hinside, hcount⟩ ?_
    have hrun := Act.exec_runs (unixMsgSendFrom 0 [[]] (some bytes) 0 fun _ => true) s fun _ =>
      emptySent
    have hdone := hsends _ _ _ _ _ _ _ hrun
    cases hasked : rightsOf s.fdTable (some bytes) with
    | error fault =>
      rw [exec_fault hasked] at hdone
      rcases hdone with ⟨-, e, he⟩ | ⟨-, -, hno, -⟩
      · exact nomatch he
      · exact absurd rfl (hno fault)
    | ok collected =>
      cases collected with
      | error e => exact Or.inl ⟨e, rfl⟩
      | ok handles =>
        rw [exec_sent hasked] at hdone
        rcases hdone with ⟨hnil, -⟩ | ⟨-, -, -, a, ha⟩
        · exact nomatch hnil
        · have hcall := congrArg (fun step => step.1.handles) (List.cons.inj ha).1
          exact Or.inr (congrArg (Except.ok ∘ Except.ok) (List.cons.inj hcall).2)
  · intro hharmless handle iov flags alloc trace r s' hrun
    have hrights : (∃ e, rightsOf s.fdTable control = .ok (.error e)) ∨
        ((listedFds control).length ≤ kMaxPassedFds ∧
          (∀ fd ∈ listedFds control, ¬NotOpen s.fdTable fd) ∧
          rightsOf s.fdTable control =
            .ok (.ok ((listedFds control).map (handleForFd s.fdTable)))) := by
      cases control with
      | none => exact Or.inr ⟨Nat.zero_le _, fun fd hfd => absurd hfd List.not_mem_nil, rfl⟩
      | some bytes => exact collectListed_harmless hharmless
    rcases runs_unixMsgSendFrom hrun with ⟨fault, hfault, -⟩ | ⟨e, -, rfl, rfl⟩ |
      ⟨handles, hok, ⟨rfl, herror⟩ | ⟨hno, a, rfl⟩⟩
    -- No byte outside the buffer is asked for.
    · rcases hrights with ⟨e, he⟩ | ⟨-, -, he⟩
      · rw [he] at hfault
        exact nomatch hfault
      · rw [he] at hfault
        exact nomatch hfault
    · exact Or.inl ⟨rfl, e, rfl⟩
    · exact Or.inl ⟨rfl, herror⟩
    · rcases hrights with ⟨e, he⟩ | ⟨hle, hopen, he⟩
      · rw [he] at hok
        exact nomatch Except.ok.inj hok
      · rw [he] at hok
        obtain rfl := Except.ok.inj (Except.ok.inj hok)
        exact Or.inr ⟨hle, hopen, hno, a, rfl⟩

/-- A header of 20 bytes, for one fd, in a buffer of 16. -/
def overlongHeader : List Byte := [20, 0, 0, 0, 0, 0, 0, 0, 1, 0, 0, 0, 1, 0, 0, 0]

/-- The fd of such a header is read behind the buffer. -/
theorem overlongHeader_read :
    rightsOf initialTable (some overlongHeader) = .error (.read 16) ∧
      ¬∀ handle iov flags alloc trace r s',
        Act.Runs (unixMsgSendFrom handle iov (some overlongHeader) flags alloc) initialLibc trace r
            s' →
          SendsRights initialTable handle flags iov (some overlongHeader) trace r := by
  have hfault : rightsOf initialTable (some overlongHeader) = .error (.read 16) := by
    have hrights : (headerAt overlongHeader 0).IsRights := by decide
    have hcount : fdCount (headerAt overlongHeader 0).len = 1 := by decide
    show collectRights initialTable overlongHeader 0 [] = _
    rw [collectRights_step (by decide), if_pos hrights, hcount]
    rfl
  refine ⟨hfault, fun hsends => ?_⟩
  have hrun := Act.exec_runs (unixMsgSendFrom 0 [[]] (some overlongHeader) 0 fun _ => true)
    initialLibc fun _ => emptySent
  have hdone := hsends _ _ _ _ _ _ _ hrun
  rw [exec_fault (s := initialLibc) hfault] at hdone
  rcases hdone with ⟨-, e, he⟩ | ⟨-, -, hno, -⟩
  · exact nomatch he
  · exact absurd rfl (hno (.read 16))

end IUserApps.Sysdeps
