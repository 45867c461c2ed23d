import IUserApps.Checked
import IUserApps.Sysdeps.Ownership
import IUserApps.Sysdeps.Streams

/-!
# Handles received with a message

`unix_msg_recv` with the bytes of its control buffer. The fds that it registers are written one
after another behind the place of a header, and the header in front of them when there are any;
every write is checked against the buffer. It makes the calls of `unixMsgRecv`
(`unixMsgRecvInto_receives`), whose fds are what the table has free (`Registered.freeSlots`), and
`unixMsgRecvInto_accounts` says what becomes of the handles and of the buffer.
-/

namespace IUserApps.Sysdeps

open Interact Checked

/-! ## The control buffer -/

/-- A message after the call: what was written to each piece, the bytes of the control buffer, and
the lengths and flags stored. -/
structure MsgBuffer where
  length : ℤ
  pieces : List (List Byte)
  control : List Byte
  namelen : ℕ
  controllen : ℕ
  flags : ℕ

/-- Registers the handles received and writes their fds to the control buffer, closing those that
the table has no room for: the buffer, the number of fds and the flags. -/
def storeFds (control : List Byte) (registered flags : ℕ) :
    List ℤ → Sys (Access (List Byte × ℕ × ℕ))
  | [] => pure (.ok (control, registered, flags))
  | handle :: handles => do
    match ← registerFd handle with
    | some fd =>
      match storeMany control (CMSG_LEN (4 * registered)) (leBytes 4 fd) with
      | .ok control => storeFds control (registered + 1) flags handles
      | .error fault => pure (.error fault)
    | none =>
      let _ ← Act.ask (kcall .close [handle] [])
      storeFds control registered (flags ||| MSG_CTRUNC) handles

/-- Writes the header in front of the fds, if there are any: the buffer and how much of it is used.
-/
def storeHeader (control : List Byte) (registered : ℕ) : Access (List Byte × ℕ) :=
  if registered ≠ 0 then do
    let control ← storeMany control 8 (leBytes 4 (u32 SOL_SOCKET))
    let control ← storeMany control 12 (leBytes 4 (u32 SCM_RIGHTS))
    let control ← storeMany control 0 (leBytes 8 (CMSG_LEN (4 * registered)))
    let controlUsed := CMSG_SPACE (4 * registered)
    .ok (control, if control.length < controlUsed then control.length else controlUsed)
  else .ok (control, 0)

/-- What is done with the handles received: the control buffer, how much of it is used, and the
flags. -/
def storeRights (control : List Byte) (handles : List ℤ) (flags : ℕ) :
    Sys (Access (List Byte × ℕ × ℕ)) := do
  let stored ← storeFds control 0 flags handles
  pure do
    let (control, registered, flags) ← stored
    let (control, controlUsed) ← storeHeader control registered
    .ok (control, controlUsed, flags)

/-- Receives from a unix socket into a control buffer; `none` when it is another socket. -/
def unixMsgRecvInto (handle : ℤ) (iov : List ℕ) (control : Option (List Byte)) (flags : ℤ)
    (alloc : ℕ → Bool) : Sys (Access (Option MsgBuffer)) :=
  let size := iov.sum
  if bounceFails alloc iov.length size then
    Act.throw ENOMEM
  else do
    let ret ← Act.ask
      (kcall .socketRecvmsg [handle] [flags, fdCapacity (control.map List.length), size])
    let e := scError ret.ret
    if e ≠ 0 then
      if e = EOPNOTSUPP then pure (.ok none) else Act.throw e
    else
      let stored ← storeRights (control.getD []) ret.handles ret.flags
      pure do
        let (control, controlUsed, flags) ← stored
        .ok (some {
          length := ret.ret
          pieces := scatter iov (bytesOf ret.block (u64 ret.ret))
          control := control
          namelen := 0
          controllen := controlUsed
          flags := flags })

/-! ## The free slots -/

/-- The slots that `registerFd` may take. -/
def freeSlots (table : FdTable) : List ℕ :=
  (List.range' 3 (kMaxFd - 3)).filter fun fd => table fd = 0

/-- The table with handles stored in slots. -/
def storedIn (table : FdTable) (fds : List ℕ) (handles : List ℤ) : FdTable :=
  (fds.zip handles).foldl (fun table p => Function.update table p.1 p.2) table

variable {table table' : FdTable} {s s' : Libc} {trace : List (KCall × Answer)}

/-- A handle takes the first free slot. -/
theorem freeFd_eq_head (table : FdTable) : freeFd table 3 = (freeSlots table).head? := by
  unfold freeSlots
  rw [List.head?_filter]
  exact freeFrom_eq_find (kMaxFd - 3) 3

/-- No free slot is listed twice. -/
theorem nodup_freeSlots (table : FdTable) : (freeSlots table).Nodup :=
  List.Pairwise.filter _ List.nodup_range'

/-- A slot that is taken is free no more. -/
theorem freeSlots_update {fd : ℕ} {rest : List ℕ} {handle : ℤ} (h : freeSlots table = fd :: rest)
    (hne : handle ≠ 0) : freeSlots (Function.update table fd handle) = rest := by
  have hnot : fd ∉ rest := by
    have hnodup := nodup_freeSlots table
    rw [h] at hnodup
    exact (List.nodup_cons.1 hnodup).1
  have hfilter : freeSlots (Function.update table fd handle) =
      (freeSlots table).filter fun k => k ≠ fd := by
    unfold freeSlots
    rw [List.filter_filter]
    refine List.filter_congr fun k _ => ?_
    by_cases hk : k = fd
    · simp [hk, hne]
    · simp [hk]
  rw [hfilter, h, List.filter_cons_of_neg (by simp), List.filter_eq_self]
  intro k hk
  have hkfd : k ≠ fd := by
    rintro rfl
    exact hnot hk
  simp [hkfd]

/-- The handles of a message take the free slots in order, and those that are left are closed. -/
theorem Registered.freeSlots {handles : List ℤ} {fds : List ℕ}
    (h : Registered table handles trace fds table') (hne : ∀ x ∈ handles, x ≠ 0) :
    fds = (freeSlots table).take handles.length ∧ table' = storedIn table fds handles ∧
      trace.map Prod.fst = (handles.drop fds.length).map fun x => kcall .close [x] [] := by
  induction h with
  | nil table => exact ⟨List.take_zero.symm, rfl, rfl⟩
  | @kept table table' handle handles trace fd fds hfree _ ih =>
    obtain ⟨hfds, htable, htrace⟩ := ih fun x hx => hne x (List.mem_cons_of_mem _ hx)
    rw [freeFd_eq_head, List.head?_eq_some_iff] at hfree
    obtain ⟨rest, hrest⟩ := hfree
    rw [freeSlots_update hrest (hne handle List.mem_cons_self)] at hfds
    refine ⟨?_, ?_, htrace⟩
    · rw [hrest, List.length_cons, List.take_succ_cons, hfds]
    · rw [htable]
      rfl
  | @closed table table' handle handles trace fds a hfree _ ih =>
    obtain ⟨hfds, htable, htrace⟩ := ih fun x hx => hne x (List.mem_cons_of_mem _ hx)
    rw [freeFd_eq_head, List.head?_eq_none_iff] at hfree
    rw [hfree, List.take_nil] at hfds
    subst hfds
    refine ⟨?_, htable, ?_⟩
    · rw [hfree, List.take_nil]
    · rw [List.map_cons, htrace]
      rfl

/-! ## The bytes -/

/-- The bytes of fds. -/
def fdBytes (fds : List ℕ) : List Byte := fds.flatMap (leBytes 4)

/-- An fd takes four bytes. -/
theorem length_fdBytes (fds : List ℕ) : (fdBytes fds).length = 4 * fds.length := by
  unfold fdBytes
  induction fds with
  | nil => rfl
  | cons fd fds ih =>
    rw [List.flatMap_cons, List.length_append, ih, length_leBytes, List.length_cons]
    omega

/-- The bytes of a header with fds. -/
def headerBytes (fds : List ℕ) : List Byte :=
  leBytes 8 (CMSG_LEN (4 * fds.length)) ++ leBytes 4 (u32 SOL_SOCKET) ++
    leBytes 4 (u32 SCM_RIGHTS) ++ fdBytes fds

/-- The handles are registered as `registerReceived` does it, and the fds written in their order. -/
theorem storeFds_registers {handles : List ℤ} {control : List Byte} {registered flags : ℕ}
    {r : Except Errno (Access (List Byte × ℕ × ℕ))}
    (hroom : CMSG_LEN (4 * (registered + handles.length)) ≤ control.length)
    (h : Act.Runs (storeFds control registered flags handles) s trace r s') :
    ∃ fds, Act.Runs (registerReceived handles) s trace
        (.ok (fds, decide (fds.length < handles.length))) s' ∧
      fds.length ≤ handles.length ∧
      r = .ok (.ok (overwrite control (CMSG_LEN (4 * registered)) (fdBytes fds),
        registered + fds.length,
        if fds.length < handles.length then flags ||| MSG_CTRUNC else flags)) := by
  induction handles generalizing control registered flags s trace with
  | nil =>
    unfold storeFds at h
    obtain ⟨rfl, rfl, rfl⟩ := Act.runs_pure.1 h
    refine ⟨[], Act.runs_pure.2 ⟨rfl, rfl, rfl⟩, Nat.le_refl 0, ?_⟩
    simp [fdBytes]
  | cons handle handles ih =>
    have hlen : (handle :: handles).length = handles.length + 1 := rfl
    unfold CMSG_LEN at hroom
    unfold storeFds registerFd at h
    rw [runs_registerFdMin_bind] at h
    cases hfree : freeFd s.fdTable 3 with
    | some fd =>
      -- The fd goes behind those stored so far; the rest is stored behind it.
      have hstore : 16 + 4 * registered + (leBytes 4 fd).length ≤ control.length := by
        rw [length_leBytes]
        omega
      simp only [hfree, Option.elim_some, CMSG_LEN, (storeMany_safe hstore).eq] at h
      obtain ⟨fds, hrun, hle, rfl⟩ := ih (by
        rw [CMSG_LEN, length_overwrite hstore]
        omega) h
      refine ⟨fd :: fds, ?_, Nat.succ_le_succ hle, ?_⟩
      · unfold registerReceived registerFd
        rw [runs_registerFdMin_bind, hfree]
        refine Act.runs_bind.2 (Or.inr ⟨_, _, trace, [], hrun, ?_, (List.append_nil _).symm⟩)
        simp
      · have hplace : CMSG_LEN (4 * (registered + 1)) =
            16 + 4 * registered + (leBytes 4 fd).length := by
          rw [length_leBytes, CMSG_LEN]
          omega
        have hcount : registered + 1 + fds.length = registered + (fd :: fds).length := by
          rw [List.length_cons]
          omega
        rw [hplace, overwrite_append hstore, hcount]
        simp [fdBytes, CMSG_LEN]
    | none =>
      -- Without a slot the handle is closed, and no byte is stored for it.
      simp only [hfree, Option.elim_none] at h
      obtain ⟨a, rest, rfl, h'⟩ := Act.runs_ask_bind.1 h
      obtain ⟨fds, hrun, hle, rfl⟩ := ih (by
        rw [CMSG_LEN]
        omega) h'
      have hlt : fds.length < handles.length + 1 := Nat.lt_succ_of_le hle
      refine ⟨fds, ?_, Nat.le_succ_of_le hle, ?_⟩
      · unfold registerReceived registerFd
        rw [runs_registerFdMin_bind, hfree]
        refine Act.runs_ask_bind.2 ⟨a, rest, rfl, ?_⟩
        refine Act.runs_bind.2 (Or.inr ⟨_, _, rest, [], hrun, ?_, (List.append_nil _).symm⟩)
        simp [hlt]
      · -- The flag stays set once a handle has been closed.
        simp only [hlen, hlt, if_true]
        split
        · rw [Nat.or_assoc, Nat.or_self]
        · rfl

/-- The header is written in front of the fds. -/
theorem storeHeader_safe {control : List Byte} {fds : List ℕ} (hne : fds ≠ [])
    (hroom : CMSG_LEN (4 * fds.length) ≤ control.length) :
    storeHeader (overwrite control (CMSG_LEN 0) (fdBytes fds)) fds.length =
      .ok (overwrite control 0 (headerBytes fds),
        min (CMSG_SPACE (4 * fds.length)) control.length) := by
  have hbytes : CMSG_LEN 0 + (fdBytes fds).length ≤ control.length := by
    rw [length_fdBytes]
    exact hroom
  unfold headerBytes storeHeader
  rw [if_pos fun hzero => hne (List.length_eq_zero_iff.1 hzero)]
  unfold CMSG_LEN at hbytes ⊢
  generalize hlevel : leBytes 4 (u32 SOL_SOCKET) = level
  generalize htype : leBytes 4 (u32 SCM_RIGHTS) = type
  generalize hlen : leBytes 8 (16 + 4 * fds.length) = len
  have hlevel4 : level.length = 4 := hlevel ▸ length_leBytes 4 _
  have htype4 : type.length = 4 := htype ▸ length_leBytes 4 _
  have hlen8 : len.length = 8 := hlen ▸ length_leBytes 8 _
  -- Level and type go between the place of the length and the fds, and the length last.
  have h8 : 8 = 0 + len.length := by omega
  have h12 : 12 = 8 + level.length := by omega
  have h16 : 16 + 0 = 8 + (level ++ type).length := by
    rw [List.length_append]
    omega
  have hafter := length_overwrite hbytes
  have hboth : 8 + (level ++ type).length + (fdBytes fds).length ≤ control.length := by
    rw [← h16]
    exact hbytes
  have hall : 0 + len.length + (level ++ type ++ fdBytes fds).length ≤ control.length := by
    rw [List.length_append]
    omega
  have hrest : overwrite (overwrite (overwrite control (16 + 0) (fdBytes fds)) 8 level) 12 type =
      overwrite control 8 (level ++ type ++ fdBytes fds) := by
    rw [h12, overwrite_append (by omega), h16, overwrite_before hboth]
  have hfirst : 8 + level.length ≤ (overwrite control (16 + 0) (fdBytes fds)).length := by omega
  have hsecond : 12 + type.length ≤
      (overwrite (overwrite control (16 + 0) (fdBytes fds)) 8 level).length := by
    rw [length_overwrite hfirst]
    omega
  have hfit : 8 + (level ++ type ++ fdBytes fds).length ≤ control.length := by omega
  have hthird : 0 + len.length ≤ (overwrite control 8 (level ++ type ++ fdBytes fds)).length := by
    rw [length_overwrite hfit]
    omega
  rw [(storeMany_safe hfirst).eq, ok_bind, (storeMany_safe hsecond).eq, ok_bind, hrest,
    (storeMany_safe hthird).eq, ok_bind, h8, overwrite_before hall]
  have hlength : (overwrite control 0 (len ++ (level ++ type ++ fdBytes fds))).length =
      control.length := by
    refine length_overwrite ?_
    rw [List.length_append]
    omega
  have hused : (if control.length < CMSG_SPACE (4 * fds.length) then control.length
      else CMSG_SPACE (4 * fds.length)) = min (CMSG_SPACE (4 * fds.length)) control.length := by
    split <;> omega
  dsimp only
  rw [hlength, hused, List.append_assoc len level type, List.append_assoc len]

/-- A header of the fds, if there are any, at the start of a control buffer. -/
def withRights (control : List Byte) (fds : List ℕ) : List Byte :=
  if fds = [] then control else overwrite control 0 (headerBytes fds)

/-- How much of a control buffer they use. -/
def rightsUsed (control : List Byte) (fds : List ℕ) : ℕ :=
  if fds = [] then 0 else min (CMSG_SPACE (4 * fds.length)) control.length

/-- The flags when some of the handles were closed. -/
def truncatedFlags (handles : List ℤ) (fds : List ℕ) (flags : ℕ) : ℕ :=
  if fds.length < handles.length then flags ||| MSG_CTRUNC else flags

/-- The header with its fds is as long as it says. -/
theorem length_headerBytes (fds : List ℕ) :
    (headerBytes fds).length = CMSG_LEN (4 * fds.length) := by
  simp only [headerBytes, List.length_append, length_leBytes, length_fdBytes, CMSG_LEN]

/-- The buffer begins with the header and its fds, if there are any. -/
theorem withRights_eq (control : List Byte) (fds : List ℕ) : withRights control fds =
    if fds = [] then control else headerBytes fds ++ control.drop (CMSG_LEN (4 * fds.length)) := by
  unfold withRights overwrite
  rw [List.take_zero, List.nil_append, Nat.zero_add, length_headerBytes]

/-- No more of the buffer is used than there is. -/
theorem rightsUsed_le (control : List Byte) (fds : List ℕ) :
    rightsUsed control fds ≤ control.length := by
  unfold rightsUsed
  split
  · exact Nat.zero_le _
  · exact Nat.min_le_right ..

/-- Where there is room, the header and its fds are used. -/
theorem le_rightsUsed {control : List Byte} {fds : List ℕ} (hne : fds ≠ [])
    (hroom : CMSG_LEN (4 * fds.length) ≤ control.length) :
    CMSG_LEN (4 * fds.length) ≤ rightsUsed control fds := by
  unfold rightsUsed CMSG_SPACE
  rw [if_neg hne]
  unfold CMSG_LEN at hroom ⊢
  omega

/-- With room for every handle, the handles are registered as `registerReceived` does it and no byte
is written outside the buffer. -/
theorem storeRights_registers {handles : List ℤ} {control : List Byte} {flags : ℕ}
    {r : Except Errno (Access (List Byte × ℕ × ℕ))}
    (hroom : handles = [] ∨ CMSG_LEN (4 * handles.length) ≤ control.length)
    (h : Act.Runs (storeRights control handles flags) s trace r s') :
    ∃ fds, Act.Runs (registerReceived handles) s trace
        (.ok (fds, decide (fds.length < handles.length))) s' ∧ fds.length ≤ handles.length ∧
      r = .ok (.ok (withRights control fds, rightsUsed control fds,
        truncatedFlags handles fds flags)) := by
  unfold storeRights at h
  -- Without handles nothing is stored.
  rcases hroom with rfl | hroom
  · rw [storeFds, Act.runs_pure_bind] at h
    obtain ⟨rfl, rfl, rfl⟩ := Act.runs_pure.1 h
    exact ⟨[], Act.runs_pure.2 ⟨rfl, rfl, rfl⟩, Nat.le_refl 0, rfl⟩
  · have hroom' : CMSG_LEN (4 * (0 + handles.length)) ≤ control.length := by
      rw [Nat.zero_add]
      exact hroom
    rcases Act.runs_bind.1 h with ⟨e, h1, rfl⟩ | ⟨x, mid, first, last, h1, h2, rfl⟩
    · obtain ⟨fds, -, -, he⟩ := storeFds_registers hroom' h1
      exact absurd he (by simp)
    · obtain ⟨fds, hrun, hle, he⟩ := storeFds_registers hroom' h1
      obtain rfl := Except.ok.inj he
      obtain ⟨rfl, rfl, rfl⟩ := Act.runs_pure.1 h2
      rw [List.append_nil]
      refine ⟨fds, hrun, hle, ?_⟩
      unfold withRights rightsUsed truncatedFlags
      -- No header is written when no handle got an fd.
      by_cases hne : fds = []
      · rw [hne]
        simp [ok_bind, storeHeader, fdBytes]
      · have hfits : CMSG_LEN (4 * fds.length) ≤ control.length := by
          unfold CMSG_LEN at hroom ⊢
          omega
        rw [ok_bind]
        dsimp only
        rw [Nat.mul_zero, Nat.zero_add, storeHeader_safe hne hfits, ok_bind, if_neg hne, if_neg hne]

/-! ## What is received -/

/-- The message header for what `unixMsgRecv` receives. -/
def Received.toBuffer (control : List Byte) (received : Received) : MsgBuffer where
  length := received.length
  pieces := received.pieces
  control := withRights control received.fds
  namelen := received.namelen
  controllen := received.controllen
  flags := received.flags

/-- A buffer has room for the handles that are asked for. -/
theorem room_of_le_fdCapacity {control : Option (List Byte)} {handles : List ℤ}
    (h : handles.length ≤ fdCapacity (control.map List.length)) :
    handles = [] ∨ CMSG_LEN (4 * handles.length) ≤ (control.getD []).length := by
  cases control with
  | none => exact Or.inl (List.length_eq_zero_iff.1 (Nat.le_zero.1 h))
  | some bytes =>
    by_cases hnil : handles = []
    · exact Or.inl hnil
    · right
      have hpos := List.length_pos_iff.2 hnil
      rw [Option.map_some, fdCapacity] at h
      rw [Option.getD_some]
      unfold CMSG_LEN at h ⊢
      split at h
      · have hmod := Nat.mod_le ((bytes.length - (16 + 0)) / 4) (2^32)
        omega
      · omega

/-- A slot that takes no handle. -/
theorem storedIn_of_not_mem {fds : List ℕ} {handles : List ℤ} {fd : ℕ} (h : fd ∉ fds) :
    storedIn table fds handles fd = table fd := by
  unfold storedIn
  induction fds generalizing table handles with
  | nil => rfl
  | cons k fds ih =>
    cases handles with
    | nil => rfl
    | cons handle handles =>
      obtain ⟨hk, hfds⟩ := not_or.1 (mt List.mem_cons.2 h)
      rw [List.zip_cons_cons, List.foldl_cons, ih hfds, Function.update_of_ne hk]

/-- A slot that takes one. -/
theorem storedIn_of_mem {fds : List ℕ} {handles : List ℤ} {p : ℕ × ℤ} (hnodup : fds.Nodup)
    (h : p ∈ fds.zip handles) : storedIn table fds handles p.1 = p.2 := by
  induction fds generalizing table handles with
  | nil => exact absurd h List.not_mem_nil
  | cons k fds ih =>
    cases handles with
    | nil => exact absurd h List.not_mem_nil
    | cons handle handles =>
      obtain ⟨hk, hfds⟩ := List.nodup_cons.1 hnodup
      rcases List.mem_cons.1 h with rfl | h
      · have hrest : storedIn (Function.update table k handle) fds handles k =
            Function.update table k handle k := storedIn_of_not_mem hk
        rw [Function.update_self] at hrest
        exact hrest
      · exact ih hfds h

/-- The runs of a receipt into a control buffer: it fails or finds another socket, or it registers
the handles that come and stores what `toBuffer` says. -/
theorem unixMsgRecvInto_cases {live : Live} {handle flags : ℤ} {iov : List ℕ}
    {control : Option (List Byte)} {alloc : ℕ → Bool}
    {r : Except Errno (Access (Option MsgBuffer))} (hlegal : Legal live trace)
    (h : Act.Runs (unixMsgRecvInto handle iov control flags alloc) s trace r s') :
    (bounceFails alloc iov.length iov.sum = true ∧ trace = [] ∧ r = .error ENOMEM ∧ s' = s) ∨
      ∃ a rest, bounceFails alloc iov.length iov.sum = false ∧
        trace = (kcall .socketRecvmsg [handle]
          [flags, fdCapacity (control.map List.length), iov.sum], a) :: rest ∧
        ((a.ok = false ∧ rest = [] ∧ s' = s ∧
            r = if scError a.ret = EOPNOTSUPP then .ok (.ok none) else .error (scError a.ret)) ∨
          (a.ok = true ∧ ∃ fds, Act.Runs (registerReceived a.handles) s rest
              (.ok (fds, decide (fds.length < a.handles.length))) s' ∧
            fds.length ≤ a.handles.length ∧ r = .ok (.ok (some {
              length := a.ret
              pieces := scatter iov (bytesOf a.block (u64 a.ret))
              control := withRights (control.getD []) fds
              namelen := 0
              controllen := rightsUsed (control.getD []) fds
              flags := truncatedFlags a.handles fds a.flags })))) := by
  unfold unixMsgRecvInto at h
  dsimp only at h
  split at h
  · next hbounce =>
    obtain ⟨rfl, rfl, rfl⟩ := Act.runs_throw.1 h
    exact Or.inl ⟨hbounce, rfl, rfl, rfl⟩
  · next hbounce =>
    obtain ⟨a, rest, rfl, h'⟩ := Act.runs_ask_bind.1 h
    refine Or.inr ⟨a, rest, Bool.eq_false_iff.2 hbounce, rfl, ?_⟩
    by_cases ha : scError a.ret = 0
    · have hok := Answer.ok_iff.2 ha
      -- The kernel gives no more handles than there is room for fds.
      have hle : (a.handles.length : ℤ) ≤ fdCapacity (control.map List.length) :=
        hlegal.1.2.2 hok
      rw [if_neg (not_not.2 ha)] at h'
      rcases Act.runs_bind.1 h' with ⟨e, h1, rfl⟩ | ⟨x, mid, first, last, h1, h2, rfl⟩
      · obtain ⟨fds, -, -, he⟩ := storeRights_registers (room_of_le_fdCapacity (by omega)) h1
        exact absurd he (by simp)
      · obtain ⟨fds, hrun, hfds, he⟩ := storeRights_registers (room_of_le_fdCapacity (by omega)) h1
        obtain rfl := Except.ok.inj he
        obtain ⟨rfl, rfl, rfl⟩ := Act.runs_pure.1 h2
        rw [List.append_nil]
        exact Or.inr ⟨hok, fds, hrun, hfds, rfl⟩
    · have hok : a.ok = false := by
        rw [← Bool.not_eq_true, Answer.ok_iff]
        exact ha
      rw [if_pos ha] at h'
      left
      split at h'
      · next hother =>
        obtain ⟨rfl, rfl, rfl⟩ := Act.runs_pure.1 h'
        exact ⟨hok, rfl, rfl, (if_pos hother).symm⟩
      · next hother =>
        obtain ⟨rfl, rfl, rfl⟩ := Act.runs_throw.1 h'
        exact ⟨hok, rfl, rfl, (if_neg hother).symm⟩

/-- A message received into a control buffer is what `unixMsgRecv` receives. -/
theorem unixMsgRecvInto_receives {live : Live} {handle flags : ℤ} {iov : List ℕ}
    {control : Option (List Byte)} {alloc : ℕ → Bool}
    {r : Except Errno (Access (Option MsgBuffer))} (hlegal : Legal live trace)
    (h : Act.Runs (unixMsgRecvInto handle iov control flags alloc) s trace r s') (name : Option ℕ) :
    ∃ r', Act.Runs (unixMsgRecv handle ⟨iov, name, control.map List.length⟩ flags alloc) s trace r'
        s' ∧
      r = r'.map fun received => .ok (received.map (Received.toBuffer (control.getD []))) := by
  unfold unixMsgRecv
  dsimp only
  rcases unixMsgRecvInto_cases hlegal h with ⟨hbounce, rfl, rfl, rfl⟩ |
    ⟨a, rest, hbounce, rfl, ⟨hok, rfl, rfl, rfl⟩ | ⟨hok, fds, hrun, hfds, rfl⟩⟩
  · rw [if_pos hbounce]
    exact ⟨.error ENOMEM, Act.runs_throw.2 ⟨rfl, rfl, rfl⟩, rfl⟩
  · have ha : scError a.ret ≠ 0 := by
      rw [ne_eq, ← Answer.ok_iff, hok]
      exact Bool.false_ne_true
    rw [hbounce, if_neg Bool.false_ne_true]
    -- The socket is no unix socket, or the call failed.
    by_cases hother : scError a.ret = EOPNOTSUPP
    · refine ⟨.ok none, Act.runs_ask_bind.2 ⟨a, [], rfl, ?_⟩, ?_⟩
      · rw [if_pos ha, if_pos hother]
        exact Act.runs_pure.2 ⟨rfl, rfl, rfl⟩
      · rw [if_pos hother]
        rfl
    · refine ⟨.error (scError a.ret), Act.runs_ask_bind.2 ⟨a, [], rfl, ?_⟩, ?_⟩
      · rw [if_pos ha, if_neg hother]
        exact Act.runs_throw.2 ⟨rfl, rfl, rfl⟩
      · rw [if_neg hother]
        rfl
  · have ha : scError a.ret = 0 := Answer.ok_iff.1 hok
    rw [hbounce, if_neg Bool.false_ne_true]
    have hlength : (control.map List.length).getD 0 = (control.getD []).length := by
      cases control <;> rfl
    let received : Received :=
      { length := a.ret
        pieces := scatter iov (bytesOf a.block (u64 a.ret))
        fds := fds
        name := []
        namelen := 0
        controllen := rightsUsed (control.getD []) fds
        flags := truncatedFlags a.handles fds a.flags }
    refine ⟨.ok (some received), Act.runs_ask_bind.2 ⟨a, rest, rfl, ?_⟩, rfl⟩
    rw [if_neg (not_not.2 ha)]
    refine Act.runs_bind.2 (Or.inr ⟨_, _, rest, [], hrun, Act.runs_pure.2 ⟨rfl, ?_, rfl⟩,
      (List.append_nil rest).symm⟩)
    simp only [hlength, decide_eq_true_eq, received, rightsUsed, truncatedFlags]

/-- What becomes of the handles of a message and of the control buffer: the first free slots take
the handles in their order and hold one each; those that find no slot are closed; the buffer holds
one header with just the new fds, or what it held. -/
structure RightsReceived (table table' : FdTable) (control : List Byte) (a : Answer)
    (closes : List KCall) (fds : List ℕ) (m : MsgBuffer) : Prop where
  slots_first : fds = (freeSlots table).take a.handles.length
  held : ∀ p ∈ fds.zip a.handles, table' p.1 = p.2
  others : ∀ fd, fd ∉ fds → table' fd = table fd
  rest_closed : closes = (a.handles.drop fds.length).map fun x => kcall .close [x] []
  flags : m.flags = if fds.length < a.handles.length then a.flags ||| MSG_CTRUNC else a.flags
  bytes : m.control =
    if fds = [] then control else headerBytes fds ++ control.drop (CMSG_LEN (4 * fds.length))
  used : m.controllen =
    if fds = [] then 0 else min (CMSG_SPACE (4 * fds.length)) control.length
  header_inside : fds ≠ [] → CMSG_LEN (4 * fds.length) ≤ m.controllen
  used_le : m.controllen ≤ control.length

/-- A receipt into a control buffer, with the handles that the kernel may give. Without memory for a
bounce buffer no call is made, and after a call that fails no other; the state stays as it is, and the
error is that of the call, unless it says that this is no unix socket. With a call that succeeds all
handles end in a slot or closed, the buffer names just those in a slot, no byte outside it is
written, and each handle is accounted for if the kernel closes what it is asked to. -/
theorem unixMsgRecvInto_accounts {live : Live} {handle flags : ℤ} {iov : List ℕ}
    {control : Option (List Byte)} {alloc : ℕ → Bool}
    {r : Except Errno (Access (Option MsgBuffer))} (hlegal : Legal live trace)
    (h : Act.Runs (unixMsgRecvInto handle iov control flags alloc) s trace r s') :
    if bounceFails alloc iov.length iov.sum then trace = [] ∧ s' = s ∧ r = .error ENOMEM
    else ∃ a closes, trace = (kcall .socketRecvmsg [handle]
        [flags, fdCapacity (control.map List.length), iov.sum], a) :: closes ∧
      if a.ok then
        ∃ fds m, r = .ok (.ok (some m)) ∧
          RightsReceived s.fdTable s'.fdTable (control.getD []) a (closes.map Prod.fst) fds m ∧
          (Owned [] live s.fdTable → Closes closes → Owned [] (live.run trace) s'.fdTable)
      else closes = [] ∧ s' = s ∧
        r = if scError a.ret = EOPNOTSUPP then .ok (.ok none) else .error (scError a.ret) := by
  rcases unixMsgRecvInto_cases hlegal h with ⟨hbounce, rfl, rfl, rfl⟩ |
    ⟨a, rest, hbounce, rfl, ⟨hok, rfl, rfl, rfl⟩ | ⟨hok, fds, hrun, hfds, rfl⟩⟩
  · rw [if_pos hbounce]
    exact ⟨rfl, rfl, rfl⟩
  · rw [if_neg (by rw [hbounce]; exact Bool.false_ne_true)]
    refine ⟨a, [], rfl, ?_⟩
    rw [if_neg (by rw [hok]; exact Bool.false_ne_true)]
    exact ⟨rfl, rfl, rfl⟩
  · have hgranted : ∀ args, granted (kcall .socketRecvmsg [handle] args) a = a.handles := by
      intro args
      unfold granted
      exact if_pos hok
    -- A handle that the kernel gives is positive, so a slot that takes one is no longer free.
    have hfresh := hlegal.1.1
    have hne : ∀ x ∈ a.handles, x ≠ 0 := by
      intro x hx
      have hlt := (hfresh x (by rwa [hgranted])).2
      omega
    obtain ⟨fds', truncated, he, hreg⟩ := runs_registerReceived hrun
    obtain ⟨rfl, -⟩ := Prod.mk.inj (Except.ok.inj he)
    obtain ⟨hslots, htable, hcloses⟩ := hreg.freeSlots hne
    have hnodup : fds.Nodup := by
      rw [hslots]
      exact (nodup_freeSlots s.fdTable).sublist (List.take_sublist _ _)
    have hle : (a.handles.length : ℤ) ≤ fdCapacity (control.map List.length) := hlegal.1.2.2 hok
    have hroom : fds ≠ [] → CMSG_LEN (4 * fds.length) ≤ (control.getD []).length := by
      intro hfdsne
      rcases room_of_le_fdCapacity (Int.ofNat_le.1 hle) with hnil | hroom
      · rw [hnil, List.length_nil, Nat.le_zero] at hfds
        exact absurd (List.length_eq_zero_iff.1 hfds) hfdsne
      · unfold CMSG_LEN at hroom ⊢
        omega
    rw [if_neg (by rw [hbounce]; exact Bool.false_ne_true)]
    refine ⟨a, rest, rfl, ?_⟩
    rw [if_pos hok]
    refine ⟨fds, _, rfl, ?_, ?_⟩
    · refine ⟨hslots, ?_, ?_, hcloses, rfl, ?_, rfl, ?_, ?_⟩
      · intro p hp
        rw [htable]
        exact storedIn_of_mem hnodup hp
      · intro fd hfd
        rw [htable]
        exact storedIn_of_not_mem hfd
      · exact withRights_eq (control.getD []) fds
      · exact fun hfdsne => le_rightsUsed hfdsne (hroom hfdsne)
      · exact rightsUsed_le (control.getD []) fds
    · intro howned hclose
      rw [run_cons]
      have hnumber : Syscall.socketRecvmsg ≠ .close ∧ Syscall.socketRecvmsg ≠ .dup2 := by decide
      obtain ⟨hafter, hpending⟩ := howned.grant_after (hgranted _) hnumber hlegal.1
      rw [hafter]
      exact hpending.registered hreg hclose

/-- The answer with which a message brings the handles 300 and 301. -/
def bringsTwo : Answer := ⟨1, [300, 301], fun _ => 0, 0, []⟩

/-- A control buffer for two fds. -/
def roomForTwo : List Byte := List.replicate 24 0

/-- Two handles come at the start of a process, with a buffer for two: they are in slots, and named in
the buffer. -/
theorem unixMsgRecvInto_accounts_two : ∃ s' fds m,
    Act.Runs (unixMsgRecvInto 5 [1] (some roomForTwo) 0 fun _ => true) initialLibc
      [(kcall .socketRecvmsg [5] [0, 2, 1], bringsTwo)] (.ok (.ok (some m))) s' ∧
    RightsReceived initialTable s'.fdTable roomForTwo bringsTwo [] fds m := by
  have hrun := Act.exec_runs (unixMsgRecvInto 5 [1] (some roomForTwo) 0 fun _ => true) initialLibc
    fun _ => bringsTwo
  have htrace : ((unixMsgRecvInto 5 [1] (some roomForTwo) 0 fun _ => true).exec initialLibc
      fun _ => bringsTwo).2 = [(kcall .socketRecvmsg [5] [0, 2, 1], bringsTwo)] := rfl
  have hlegal : Legal initialLive [(kcall .socketRecvmsg [5] [0, 2, 1], bringsTwo)] := by
    have hgranted : granted (kcall .socketRecvmsg [5] [0, 2, 1]) bringsTwo = [300, 301] := rfl
    have hfits : (bringsTwo.handles.length : ℤ) ≤ 2 := by decide
    refine ⟨⟨fun x hx => ?_, by decide, fun _ => hfits⟩, trivial⟩
    rw [hgranted] at hx
    have hcase : x = 300 ∨ x = 301 := by simpa using hx
    refine ⟨?_, by omega⟩
    rintro (rfl | rfl | rfl) <;> omega
  rw [htrace] at hrun
  have hbounce : ¬bounceFails (fun _ => true) [1].length [1].sum = true := by decide
  have haccounts := unixMsgRecvInto_accounts hlegal hrun
  rw [if_neg hbounce] at haccounts
  obtain ⟨a, closes, hsplit, hrights⟩ := haccounts
  obtain ⟨hcall, rfl⟩ := List.cons.inj hsplit
  obtain rfl : bringsTwo = a := (Prod.mk.inj hcall).2
  have hok : bringsTwo.ok = true := rfl
  rw [if_pos hok] at hrights
  obtain ⟨fds, m, hm, hrights, -⟩ := hrights
  rw [hm] at hrun
  exact ⟨_, fds, m, hrun, hrights⟩

end IUserApps.Sysdeps
