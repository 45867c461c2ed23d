import IUserApps.Runs
import IUserApps.Sysdeps.Files

/-!
# Positioned transfers among threads

`Pread` and `Pwrite` have no kernel call of their own: they ask for the offset, move it, transfer and
move it back, four calls on an offset that every user of the fd shares. Here several threads make
such calls on one file, in any order. What a thread still has to do is the program of its sysdep, so
every interleaving of the kernel calls is a run of `step`.

`positioned_exact` is about the runs in which no kernel call comes between those of a positioned
transfer: each transfer is then at its own offset, and when the last move succeeds the offset is the
one that the plain reads and writes have left. `pread_overtaken` says what goes wrong otherwise.
-/

namespace IUserApps.Sysdeps

open Interact Runs

/-! ## The file -/

/-- A seekable file, and the place of the next read or write through its handle. -/
structure OpenFile where
  bytes : List Byte
  offset : ℕ
deriving DecidableEq

/-- Bytes written at a place; a gap before it is filled with zeros. -/
def writeAt (bytes : List Byte) (place : ℕ) (data : List Byte) : List Byte :=
  if data = [] then bytes
  else (bytes ++ List.replicate (place - bytes.length) 0).take place ++ data ++
    bytes.drop (place + data.length)

/-- The file after a call with its answer. A call that fails changes nothing. -/
def OpenFile.after (f : OpenFile) (c : KCall) (a : Answer) : OpenFile :=
  if scError a.ret ≠ 0 then f
  else
    match c.number with
    | .seek => { f with offset := a.ret.toNat }
    | .read => { f with offset := f.offset + a.ret.toNat }
    | .write => ⟨writeAt f.bytes f.offset ((c.data.getD 0 []).take a.ret.toNat),
        f.offset + a.ret.toNat⟩
    | _ => f

/-- What the kernel may answer: any error, or what the call says of the file. -/
def OpenFile.Answers (f : OpenFile) (c : KCall) (a : Answer) : Prop :=
  scError a.ret = 0 → 0 ≤ a.ret ∧ a.ret < 2^63 ∧
    (c.number = .seek → a.ret =
      if c.args.getD 1 0 = kSeekCur then f.offset + c.args.getD 0 0 else c.args.getD 0 0) ∧
    (c.number = .read → a.ret ≤ c.args.getD 0 0 ∧
      (List.range a.ret.toNat).map a.block = (f.bytes.drop f.offset).take a.ret.toNat) ∧
    (c.number = .write → a.ret ≤ (c.data.getD 0 []).length)

instance (f : OpenFile) (c : KCall) (a : Answer) : Decidable (f.Answers c a) :=
  inferInstanceAs (Decidable (_ → _))

/-! ## Threads -/

/-- The sysdeps that transfer bytes. -/
inductive FileOp
  | pread (n : ℕ) (off : ℤ)
  | pwrite (buf : List Byte) (off : ℤ)
  | read (n : ℕ)
  | write (buf : List Byte)

/-- What a transfer comes to: the count, and the bytes read. -/
abbrev Transferred := Except Errno (ℤ × List Byte) × Libc

/-- What a thread still has to do of its sysdep. -/
abbrev Rest := Prog KCall Answer Transferred

/-- The sysdep on an fd. -/
def FileOp.sys (fd : ℤ) : FileOp → Sys (ℤ × List Byte)
  | .pread n off => sysPread fd n off
  | .pwrite buf off => do
    let w ← sysPwrite fd buf off
    pure (w, [])
  | .read n => sysRead fd n
  | .write buf => do
    let w ← sysWrite fd buf
    pure (w, [])

/-- A thread in one of these sysdeps. -/
structure Thread where
  op : FileOp
  rest : Rest
  /-- The file before and after each of its kernel calls; no part of the source. -/
  seen : List (OpenFile × OpenFile)

/-- Threads on one fd. -/
structure Shared (ι : Type) where
  file : OpenFile
  threads : ι → Option Thread
  /-- The offset that the plain reads and writes have left; no part of the source. -/
  plain : ℕ

/-- What a thread does next. -/
inductive ThreadEvent (ι : Type)
  /-- A thread enters a sysdep. -/
  | begins (i : ι) (op : FileOp)
  /-- A thread makes its next kernel call, with this answer. -/
  | calls (i : ι) (a : Answer)
  /-- A thread returns. -/
  | ends (i : ι)

/-- A transfer with a position of its own. -/
structure Transfer where
  off : ℤ
  call : ℤ → KCall
  result : Answer → ℤ × List Byte

/-- The sysdeps with a position: the transfer, and what is made of its answer. -/
def FileOp.positioned : FileOp → Option Transfer
  | .pread n off => some ⟨off, fun handle => kcall .read [handle] [n],
      fun r => (r.ret, (List.range (u64 r.ret)).map r.block)⟩
  | .pwrite buf off => some ⟨off, fun handle => kcallWith .write [handle] [] [buf],
      fun w => (w.ret, [])⟩
  | .read _ | .write _ => none

variable {ι : Type} [DecidableEq ι]

/-- One step of one thread. -/
def threadStep (fd : ℤ) (s : Libc) (σ : Shared ι) : ThreadEvent ι → Shared ι
  | .begins i op =>
    match σ.threads i with
    | none => { σ with threads := Function.update σ.threads i (some ⟨op, op.sys fd s, []⟩) }
    | some _ => σ
  | .calls i a =>
    match σ.threads i with
    | some ⟨op, .call c next, seen⟩ =>
      { file := σ.file.after c a
        threads := Function.update σ.threads i
          (some ⟨op, next a, seen ++ [(σ.file, σ.file.after c a)]⟩)
        plain := if op.positioned.isNone ∧ scError a.ret = 0 then σ.plain + a.ret.toNat
          else σ.plain }
    | _ => σ
  | .ends i =>
    match σ.threads i with
    | some ⟨_, .done _, _⟩ => { σ with threads := Function.update σ.threads i none }
    | _ => σ

/-- No thread has begun. -/
def Shared.start (f : OpenFile) : Shared ι := ⟨f, fun _ => none, f.offset⟩

/-! ## What is assumed of a step, and what is asked of it -/

/-- The kernel call that a thread makes next, if any. -/
def Thread.next (th : Thread) : Option KCall :=
  match th.rest with
  | .call c _ => some c
  | .done _ => none

/-- The kernel answers as the file does. -/
def Answered (σ : Shared ι) : ThreadEvent ι → Prop
  | .calls i a => ∀ th ∈ σ.threads i, ∀ c ∈ th.next, σ.file.Answers c a
  | _ => True

/-- A thread is between the kernel calls of a positioned transfer. -/
def Thread.Between (th : Thread) : Prop :=
  th.op.positioned.isSome ∧ th.seen ≠ [] ∧ th.next.isSome

instance (th : Thread) : Decidable th.Between := inferInstanceAs (Decidable (_ ∧ _))

/-- A kernel call comes when no other thread is between those of a positioned transfer. -/
def Uninterrupted (σ : Shared ι) : ThreadEvent ι → Prop
  | .calls i _ => ∀ j, j ≠ i → ∀ th ∈ σ.threads j, ¬ th.Between
  | _ => True

/-- The seek back of a positioned transfer, the last of its four calls, succeeds. -/
def SeeksBack (σ : Shared ι) : ThreadEvent ι → Prop
  | .calls i a => ∀ th ∈ σ.threads i, th.next.isSome → th.op.positioned.isSome →
      th.seen.length = 3 → scError a.ret = 0
  | _ => True

/-- None of these calls has changed the bytes of the file. -/
def Still (seen : List (OpenFile × OpenFile)) : Prop := ∀ p ∈ seen, p.2.bytes = p.1.bytes

instance (seen : List (OpenFile × OpenFile)) : Decidable (Still seen) :=
  inferInstanceAs (Decidable (∀ p ∈ seen, _))

/-- The transfer, the third of the kernel calls, was at the given offset, and no other call has
changed the bytes of the file. -/
def TransferredAt (op : FileOp) (seen : List (OpenFile × OpenFile)) (r : ℤ) (data : List Byte) :
    Prop :=
  match op with
  | .pread n off => 0 ≤ off ∧ 0 ≤ r ∧ r ≤ n ∧ r = data.length ∧
      (∃ p ∈ seen[2]?, data = (p.1.bytes.drop off.toNat).take r.toNat) ∧ Still seen
  | .pwrite buf off => 0 ≤ off ∧ 0 ≤ r ∧ r ≤ buf.length ∧
      (∃ p ∈ seen[2]?, p.2.bytes = writeAt p.1.bytes off.toNat (buf.take r.toNat)) ∧
      Still (seen.eraseIdx 2)
  | .read _ | .write _ => True

/-- What a thread returns, once its sysdep has succeeded. -/
def Thread.returned (th : Thread) : Option (ℤ × List Byte) :=
  match th.rest with
  | .done (.ok v, _) => some v
  | _ => none

/-- A thread that returns with success has transferred at its own offset. -/
def Delivers (σ : Shared ι) : ThreadEvent ι → Prop
  | .ends i => ∀ th ∈ σ.threads i, ∀ v ∈ th.returned, TransferredAt th.op th.seen v.1 v.2
  | _ => True

/-- The plain reads and writes are where the plain ones before have left the offset, and so is the
offset whenever no thread is between the kernel calls of a positioned transfer. -/
def KeepsOffset (fd : ℤ) (s : Libc) (σ : Shared ι) (e : ThreadEvent ι) : Prop :=
  (match e with
    | .calls i _ => ∀ th ∈ σ.threads i, th.next.isSome → th.op.positioned.isNone →
        σ.file.offset = σ.plain
    | _ => True) ∧
  ((∀ i, ∀ th ∈ (threadStep fd s σ e).threads i, ¬ th.Between) →
    (threadStep fd s σ e).file.offset = (threadStep fd s σ e).plain)

instance (σ : Shared ι) : (e : ThreadEvent ι) → Decidable (Answered σ e)
  | .begins _ _ | .ends _ => .isTrue trivial
  | .calls i _ => inferInstanceAs (Decidable (∀ th ∈ σ.threads i, ∀ c ∈ th.next, _))

instance {n : ℕ} (σ : Shared (Fin n)) : (e : ThreadEvent (Fin n)) → Decidable (Uninterrupted σ e)
  | .begins _ _ | .ends _ => .isTrue trivial
  | .calls i _ => inferInstanceAs (Decidable (∀ j, j ≠ i → ∀ th ∈ σ.threads j, _))

instance (op : FileOp) (seen : List (OpenFile × OpenFile)) (r : ℤ) (data : List Byte) :
    Decidable (TransferredAt op seen r data) :=
  match op with
  | .pread _ _ | .pwrite _ _ => inferInstanceAs (Decidable (_ ∧ _))
  | .read _ | .write _ => .isTrue trivial

instance (σ : Shared ι) : (e : ThreadEvent ι) → Decidable (Delivers σ e)
  | .begins _ _ | .calls _ _ => .isTrue trivial
  | .ends i => inferInstanceAs (Decidable (∀ th ∈ σ.threads i, ∀ v ∈ th.returned, _))

instance {n : ℕ} (fd : ℤ) (s : Libc) (σ : Shared (Fin n)) (e : ThreadEvent (Fin n)) :
    Decidable (KeepsOffset fd s σ e) :=
  match e with
  | .begins _ _ | .ends _ =>
    inferInstanceAs (Decidable (True ∧ ((∀ i, ∀ th ∈ (threadStep fd s σ _).threads i, _) → _)))
  | .calls i _ => inferInstanceAs (Decidable ((∀ th ∈ σ.threads i, _) ∧
      ((∀ i, ∀ th ∈ (threadStep fd s σ _).threads i, _) → _)))

/-! ## The four calls -/

namespace Transfer

variable (x : Transfer) (handle : ℤ) (s : Libc)

/-- The last call, which moves the offset back. -/
def restoring (saved : ℤ) (r : Answer) : Rest :=
  .call (kcall .seek [handle] [saved, kSeekSet]) fun _ =>
    if scError r.ret ≠ 0 then .done (.error (scError r.ret), s) else .done (.ok (x.result r), s)

/-- The last two calls. -/
def transferring (saved : ℤ) : Rest := .call (x.call handle) (x.restoring handle s saved)

/-- The last three calls. -/
def moving (saved : ℤ) : Rest :=
  .call (kcall .seek [handle] [x.off, kSeekSet]) fun a =>
    if scError a.ret ≠ 0 then .done (.error (scError a.ret), s) else x.transferring handle s saved

/-- The four calls. -/
def asking : Rest :=
  .call (kcall .seek [handle] [0, kSeekCur]) fun saved =>
    if scError saved.ret ≠ 0 then .done (.error (scError saved.ret), s)
    else x.moving handle s saved.ret

end Transfer

/-- A kernel call whose error is returned at once, in sequence. -/
theorem syscall_bind {α : Type} (c : KCall) (next : Answer → Sys α) (s : Libc) :
    (syscall c >>= next) s = .call c fun a =>
      if scError a.ret ≠ 0 then .done (.error (scError a.ret), s) else next a s := by
  show Prog.call c _ = _
  congr 1
  funext a
  show ((if scError a.ret ≠ 0 then Act.throw (scError a.ret) else pure a : Sys Answer) s).bind _ = _
  split
  · rfl
  · rfl

/-- The look-up of a handle and what follows. -/
theorem withHandle_apply {α : Type} (fd : ℤ) (next : ℤ → Sys α) (s : Libc) :
    withHandle fd next s = if handleForFd s.fdTable fd < 0 then .done (.error EBADF, s)
      else next (handleForFd s.fdTable fd) s := by
  show (if handleForFd s.fdTable fd < 0 then Act.throw EBADF
    else next (handleForFd s.fdTable fd) : Sys α) s = _
  split
  · rfl
  · rfl

/-- What a positioned transfer does: nothing without a handle, else the four calls. -/
theorem sys_positioned {op : FileOp} {x : Transfer} (h : op.positioned = some x) (fd : ℤ)
    (s : Libc) :
    op.sys fd s = if handleForFd s.fdTable fd < 0 then .done (.error EBADF, s)
      else x.asking (handleForFd s.fdTable fd) s := by
  -- The transfer and the seek back, which return no error of their own.
  have hlast : ∀ (handle saved : ℤ) (c : KCall) (result : Answer → ℤ × List Byte),
      (do
        let r ← Act.ask c
        let rerr := scError r.ret
        let _ ← Act.ask (kcall .seek [handle] [saved, kSeekSet])
        if rerr ≠ 0 then Act.throw rerr else pure (result r) : Sys (ℤ × List Byte)) s =
      .call c fun r => .call (kcall .seek [handle] [saved, kSeekSet]) fun _ =>
        if scError r.ret ≠ 0 then .done (.error (scError r.ret), s)
        else .done (.ok (result r), s) := by
    intro handle saved c result
    show Prog.call c _ = _
    congr 1
    funext r
    show Prog.call _ _ = _
    congr 1
    funext _
    show (if scError r.ret ≠ 0 then Act.throw (scError r.ret) else pure (result r) :
      Sys (ℤ × List Byte)) s = _
    split
    · rfl
    · rfl
  cases op with
  | pread n off =>
    cases h
    unfold FileOp.sys sysPread
    simp only [withHandle_apply, syscall_bind, hlast]
    rfl
  | pwrite buf off =>
    cases h
    have hpair : ∀ (w : Answer) (werr : Errno),
        ((if werr ≠ 0 then Act.throw werr else pure w.ret : Sys ℤ) >>= fun w => pure (w, [])) =
          (if werr ≠ 0 then Act.throw werr else pure (w.ret, []) : Sys (ℤ × List Byte)) := by
      intro w werr
      split
      · rfl
      · rfl
    unfold FileOp.sys sysPwrite
    simp only [withHandle_bind, bind_assoc, hpair, withHandle_apply, syscall_bind, hlast]
    rfl
  | read n => cases h
  | write buf => cases h

/-- What a plain transfer does: nothing without a handle, else one call. -/
theorem sys_plain {op : FileOp} (h : op.positioned = none) (fd : ℤ) (s : Libc) :
    ∃ c : KCall, (c.number = .read ∨ c.number = .write) ∧ ∃ result : Answer → Transferred,
      op.sys fd s = if handleForFd s.fdTable fd < 0 then .done (.error EBADF, s)
        else .call c fun a => .done (result a) := by
  -- One call, whose error is returned.
  have hone : ∀ (c : KCall) (result : Answer → ℤ × List Byte),
      (syscall c >>= fun a => pure (result a) : Sys (ℤ × List Byte)) s = .call c fun a =>
        .done (if scError a.ret ≠ 0 then (.error (scError a.ret), s) else (.ok (result a), s)) := by
    intro c result
    rw [syscall_bind]
    congr 1
    funext a
    split
    · rfl
    · rfl
  cases op with
  | pread n off => cases h
  | pwrite buf off => cases h
  | read n =>
    refine ⟨kcallWith .read [handleForFd s.fdTable fd] [n] [], Or.inl rfl, fun a =>
      if scError a.ret ≠ 0 then (.error (scError a.ret), s)
      else (.ok (a.ret, (List.range (u64 a.ret)).map a.block), s), ?_⟩
    unfold FileOp.sys sysRead handleCall
    simp only [withHandle_apply, hone]
  | write buf =>
    refine ⟨kcallWith .write [handleForFd s.fdTable fd] [] [buf], Or.inr rfl, fun a =>
      if scError a.ret ≠ 0 then (.error (scError a.ret), s) else (.ok (a.ret, []), s), ?_⟩
    unfold FileOp.sys sysWrite handleCall
    simp only [withHandle_bind, bind_assoc, pure_bind, withHandle_apply, hone]

/-! ## One thread -/

/-- A change that leaves the bytes, behind others that did. -/
theorem Still.append {seen : List (OpenFile × OpenFile)} {p : OpenFile × OpenFile}
    (h : Still seen) (hp : p.2.bytes = p.1.bytes) : Still (seen ++ [p]) := by
  intro q hq
  rcases List.mem_append.1 hq with hold | hnew
  · exact h q hold
  · rw [List.mem_singleton.1 hnew]
    exact hp

/-- How far a thread is in a positioned transfer, with the file as it is now. `Kept k` says that `k`
is the offset of the plain reads and writes. -/
inductive Phase (x : Transfer) (handle : ℤ) (s : Libc) (file : OpenFile) (Kept : ℤ → Prop) :
    Rest → List (OpenFile × OpenFile) → Prop
  | fresh : Phase x handle s file Kept (x.asking handle s) []
  | asked (saved : ℤ) (p : OpenFile × OpenFile) : Still [p] → 0 ≤ saved → Kept saved →
      Kept file.offset → Phase x handle s file Kept (x.moving handle s saved) [p]
  | moved (saved : ℤ) (p q : OpenFile × OpenFile) : Still [p, q] → 0 ≤ saved → Kept saved →
      file.offset = x.off → Phase x handle s file Kept (x.transferring handle s saved) [p, q]
  | transferred (saved : ℤ) (p q : OpenFile × OpenFile) (f : OpenFile) (r : Answer) :
      Still [p, q] → 0 ≤ saved → Kept saved → f.offset = x.off → f.Answers (x.call handle) r →
      Phase x handle s file Kept (x.restoring handle s saved r)
        [p, q, (f, f.after (x.call handle) r)]
  | finished (result : Transferred) (seen : List (OpenFile × OpenFile)) :
      (∀ v, result.1 = .ok v → ∃ p q f r u, seen = [p, q, (f, f.after (x.call handle) r), u] ∧
        Still [p, q, u] ∧ f.offset = x.off ∧ f.Answers (x.call handle) r ∧ scError r.ret = 0 ∧
        v = x.result r) →
      Phase x handle s file Kept (.done result) seen

/-- A seek leaves the bytes. -/
theorem after_seek_bytes (f : OpenFile) (handle off whence : ℤ) (a : Answer) :
    (f.after (kcall .seek [handle] [off, whence]) a).bytes = f.bytes := by
  unfold OpenFile.after
  split
  · rfl
  · rfl

/-- A call that fails leaves the file. -/
theorem after_failed {f : OpenFile} {c : KCall} {a : Answer} (h : scError a.ret ≠ 0) :
    f.after c a = f := by
  unfold OpenFile.after
  rw [if_pos h]

/-- A seek that succeeds puts the offset where it says. -/
theorem after_seek_offset {f : OpenFile} {handle off whence : ℤ} {a : Answer}
    (ha : f.Answers (kcall .seek [handle] [off, whence]) a) (hok : scError a.ret = 0) :
    ((f.after (kcall .seek [handle] [off, whence]) a).offset : ℤ) = a.ret ∧
      a.ret = if whence = kSeekCur then f.offset + off else off := by
  obtain ⟨h0, -, hret, -⟩ := ha hok
  refine ⟨?_, hret rfl⟩
  unfold OpenFile.after
  rw [if_neg (not_not.2 hok)]
  exact Int.toNat_of_nonneg h0

/-- A call of a positioned transfer takes the thread on. After the last one the offset is that of the
plain reads and writes again, if the last seek has succeeded. -/
theorem Phase.call {x : Transfer} {handle : ℤ} {s : Libc} {file : OpenFile} {Kept : ℤ → Prop}
    {c : KCall} {next : Answer → Rest} {seen : List (OpenFile × OpenFile)} {a : Answer}
    (h : Phase x handle s file Kept (.call c next) seen) (ha : file.Answers c a)
    (hfresh : seen = [] → Kept file.offset)
    (hback : seen.length = 3 → scError a.ret = 0 ∨ ∀ k, Kept k) :
    Phase x handle s (file.after c a) Kept (next a) (seen ++ [(file, file.after c a)]) ∧
      ∀ r, next a = .done r → Kept (file.after c a).offset := by
  generalize hrest : Prog.call c next = rest at h
  cases h with
  | fresh =>
    obtain ⟨rfl, rfl⟩ := Prog.call.inj hrest
    have hkept := hfresh rfl
    have hbytes := after_seek_bytes file handle 0 kSeekCur a
    have hstill : Still [(file, file.after (kcall .seek [handle] [0, kSeekCur]) a)] :=
      Still.append (fun p hp => absurd hp List.not_mem_nil) hbytes
    beta_reduce
    by_cases hok : scError a.ret = 0
    · -- The seek by nothing answers the offset of the plain transfers and leaves it.
      obtain ⟨hoffset, hret⟩ := after_seek_offset ha hok
      rw [if_pos rfl, Int.add_zero] at hret
      rw [if_neg (not_not.2 hok)]
      refine ⟨?_, fun r hr => nomatch hr⟩
      refine .asked a.ret _ hstill (ha hok).1 ?_ ?_
      · rw [hret]
        exact hkept
      · rw [hoffset, hret]
        exact hkept
    · rw [if_pos hok]
      refine ⟨.finished _ _ (fun v hv => nomatch hv), fun r _ => ?_⟩
      rw [after_failed hok]
      exact hkept
  | asked saved p hstill h0 hsaved hnow =>
    obtain ⟨rfl, rfl⟩ := Prog.call.inj hrest
    have hbytes := after_seek_bytes file handle x.off kSeekSet a
    beta_reduce
    by_cases hok : scError a.ret = 0
    · obtain ⟨hoffset, hret⟩ := after_seek_offset ha hok
      rw [if_neg (by decide)] at hret
      rw [if_neg (not_not.2 hok)]
      refine ⟨?_, fun r hr => nomatch hr⟩
      exact .moved saved p _ (hstill.append hbytes) h0 hsaved (hoffset.trans hret)
    · rw [if_pos hok]
      refine ⟨.finished _ _ (fun v hv => nomatch hv), fun r _ => ?_⟩
      rw [after_failed hok]
      exact hnow
  | moved saved p q hstill h0 hsaved hoffset =>
    obtain ⟨rfl, rfl⟩ := Prog.call.inj hrest
    refine ⟨?_, fun r hr => nomatch hr⟩
    -- Whatever the transfer's answer, the seek back is still to come.
    exact .transferred saved p q file a hstill h0 hsaved hoffset ha
  | transferred saved p q f r hstill h0 hsaved hoffset hr =>
    obtain ⟨rfl, rfl⟩ := Prog.call.inj hrest
    have hbytes := after_seek_bytes file handle saved kSeekSet a
    have hplace : Kept (file.after (kcall .seek [handle] [saved, kSeekSet]) a).offset := by
      rcases hback rfl with hok | hall
      · obtain ⟨hto, hret⟩ := after_seek_offset ha hok
        rw [if_neg (by decide)] at hret
        rw [hto, hret]
        exact hsaved
      · exact hall _
    refine ⟨?_, fun _ _ => hplace⟩
    beta_reduce
    -- The result is the transfer's, whatever the seek back answers.
    by_cases hok : scError r.ret = 0
    · rw [if_neg (not_not.2 hok)]
      refine .finished _ _ fun v hv => ?_
      obtain rfl := Except.ok.inj hv
      exact ⟨p, q, f, r, _, rfl, hstill.append hbytes, hoffset, hr, hok, rfl⟩
    · rw [if_pos hok]
      exact .finished _ _ fun v hv => nomatch hv
  | finished result seen hresult => cases hrest

/-- A thread between the calls of no positioned transfer does not look at the file. -/
theorem Phase.of_not_between {x : Transfer} {handle : ℤ} {s : Libc} {file file' : OpenFile}
    {Kept Kept' : ℤ → Prop} {th : Thread} (hx : th.op.positioned = some x)
    (h : Phase x handle s file Kept th.rest th.seen) (hth : ¬ th.Between) :
    Phase x handle s file' Kept' th.rest th.seen := by
  have hsome : th.op.positioned.isSome := by rw [hx]; rfl
  unfold Thread.Between Thread.next at hth
  generalize th.rest = rest at h hth ⊢
  generalize th.seen = seen at h hth ⊢
  cases h with
  | fresh => exact .fresh
  | asked => exact absurd ⟨hsome, List.cons_ne_nil _ _, rfl⟩ hth
  | moved => exact absurd ⟨hsome, List.cons_ne_nil _ _, rfl⟩ hth
  | transferred => exact absurd ⟨hsome, List.cons_ne_nil _ _, rfl⟩ hth
  | finished result seen hresult => exact .finished result seen hresult

/-- A thread that is over has transferred at its own offset, if it succeeds. -/
theorem Phase.transferredAt {x : Transfer} {handle : ℤ} {s s' : Libc} {file : OpenFile}
    {Kept : ℤ → Prop} {op : FileOp} (hx : op.positioned = some x) {r : ℤ} {data : List Byte}
    {seen : List (OpenFile × OpenFile)}
    (h : Phase x handle s file Kept (.done (.ok (r, data), s')) seen) :
    TransferredAt op seen r data := by
  cases h with
  | finished result seen hresult =>
    obtain ⟨p, q, f, a, u, rfl, hstill, hoffset, ha, hok, hv⟩ := hresult _ rfl
    obtain ⟨h0, hlong, hanswer⟩ := ha hok
    have hp := hstill p (by simp)
    have hq := hstill q (by simp)
    have hu := hstill u (by simp)
    -- The four calls of the thread: where it was, the seek there, the transfer, the seek back.
    cases op with
    | pread n off =>
      cases hx
      obtain ⟨hn, hbytes⟩ := hanswer.2.1 rfl
      have hoff : (f.offset : ℤ) = off := hoffset
      have hplace : off.toNat = f.offset := by omega
      have hcount : u64 a.ret = a.ret.toNat := by
        unfold u64
        omega
      obtain ⟨rfl, hdata⟩ := Prod.mk.inj hv
      have hdata' : data = (List.range a.ret.toNat).map a.block := by
        rw [hdata, hcount]
      have hlength : a.ret = data.length := by
        rw [hdata', List.length_map, List.length_range, Int.toNat_of_nonneg h0]
      have hread : (f.after (kcall .read [handle] [n]) a).bytes = f.bytes := by
        unfold OpenFile.after
        rw [if_neg (not_not.2 hok)]
        rfl
      refine ⟨by omega, h0, hn, hlength, ⟨_, rfl, ?_⟩, ?_⟩
      · rw [hdata', hplace]
        exact hbytes
      · intro v hv
        simp only [List.mem_cons, List.not_mem_nil, or_false] at hv
        rcases hv with rfl | rfl | rfl | rfl
        · exact hp
        · exact hq
        · exact hread
        · exact hu
    | pwrite buf off =>
      cases hx
      have hoff : (f.offset : ℤ) = off := hoffset
      have hplace : off.toNat = f.offset := by omega
      obtain ⟨rfl, -⟩ := Prod.mk.inj hv
      refine ⟨by omega, h0, hanswer.2.2 rfl, ⟨_, rfl, ?_⟩, hstill⟩
      show (f.after (kcallWith .write [handle] [] [buf]) a).bytes = _
      unfold OpenFile.after
      rw [if_neg (not_not.2 hok), hplace]
      rfl
    | read n => cases hx
    | write buf => cases hx

/-! ## All threads -/

/-- A thread in a plain transfer: before its one call, or over. -/
def Plain (rest : Rest) : Prop :=
  (∃ c : KCall, (c.number = .read ∨ c.number = .write) ∧ ∃ result : Answer → Transferred,
    rest = .call c fun a => .done (result a)) ∨ ∃ r, rest = .done r

/-- The invariant. `R` says whether every seek back of the run succeeds. -/
structure Orderly (fd : ℤ) (s : Libc) (R : Prop) (σ : Shared ι) : Prop where
  positioned : ∀ i th x, σ.threads i = some th → th.op.positioned = some x →
    Phase x (handleForFd s.fdTable fd) s σ.file (fun k => R → k = σ.plain) th.rest th.seen
  plain : ∀ i th, σ.threads i = some th → th.op.positioned = none → Plain th.rest
  quiet : R → (∀ i th, σ.threads i = some th → ¬ th.Between) → σ.file.offset = σ.plain

omit [DecidableEq ι] in
/-- Before any thread has begun all is in order. -/
theorem start_orderly (fd : ℤ) (s : Libc) (R : Prop) (f : OpenFile) :
    Orderly fd s R (Shared.start f : Shared ι) where
  positioned := fun _ _ _ h => nomatch h
  plain := fun _ _ h => nomatch h
  quiet := fun _ _ => rfl

/-- A thread after one of them was replaced: the new one, or another. -/
theorem update_cases {threads : ι → Option Thread} {i j : ι} {new : Option Thread} {th : Thread}
    (h : Function.update threads i new j = some th) :
    j = i ∧ new = some th ∨ j ≠ i ∧ threads j = some th := by
  rw [Function.update_apply] at h
  split at h
  · next hji => exact Or.inl ⟨hji, h⟩
  · next hji => exact Or.inr ⟨hji, h⟩

/-- A thread enters a sysdep. -/
theorem Orderly.begins {fd : ℤ} {s : Libc} {R : Prop} {σ : Shared ι} (h : Orderly fd s R σ) (i : ι)
    (op : FileOp) : Orderly fd s R (threadStep fd s σ (.begins i op)) := by
  cases hi : σ.threads i with
  | some th =>
    have hsame : threadStep fd s σ (.begins i op) = σ := by
      simp only [threadStep, hi]
    rw [hsame]
    exact h
  | none =>
    have hstep : threadStep fd s σ (.begins i op) =
        { σ with threads := Function.update σ.threads i (some ⟨op, op.sys fd s, []⟩) } := by
      simp only [threadStep, hi]
    rw [hstep]
    refine ⟨?_, ?_, ?_⟩
    · intro j th x hj hx
      rcases update_cases hj with ⟨-, hnew⟩ | ⟨-, hold⟩
      · obtain rfl := Option.some.inj hnew
        dsimp only at hx ⊢
        rw [sys_positioned hx]
        split
        · exact .finished _ _ fun v hv => nomatch hv
        · exact .fresh
      · exact h.positioned j th x hold hx
    · intro j th hj hx
      rcases update_cases hj with ⟨-, hnew⟩ | ⟨-, hold⟩
      · obtain rfl := Option.some.inj hnew
        obtain ⟨c, hc, result, hsys⟩ := sys_plain hx fd s
        dsimp only
        rw [hsys]
        split
        · exact Or.inr ⟨_, rfl⟩
        · exact Or.inl ⟨c, hc, result, rfl⟩
      · exact h.plain j th hold hx
    · intro hR hnone
      -- The threads that were there are there still, so none of them is between its calls.
      refine h.quiet hR fun j th hj => hnone j th ?_
      have hne : j ≠ i := by
        rintro rfl
        rw [hi] at hj
        cases hj
      dsimp only
      rw [Function.update_of_ne hne]
      exact hj

/-- A thread returns. -/
theorem Orderly.ends {fd : ℤ} {s : Libc} {R : Prop} {σ : Shared ι} (h : Orderly fd s R σ) (i : ι) :
    Orderly fd s R (threadStep fd s σ (.ends i)) := by
  cases hi : σ.threads i with
  | none =>
    have hsame : threadStep fd s σ (.ends i) = σ := by
      simp only [threadStep, hi]
    rw [hsame]
    exact h
  | some th =>
    obtain ⟨op, rest, seen⟩ := th
    -- Only a thread that is over can end; another one is left alone.
    cases rest with
    | call c next =>
      have hsame : threadStep fd s σ (.ends i) = σ := by
        simp only [threadStep, hi]
      rw [hsame]
      exact h
    | done r =>
      have hstep : threadStep fd s σ (.ends i) =
          { σ with threads := Function.update σ.threads i none } := by
        simp only [threadStep, hi]
      -- The threads that are left were there before.
      have hold : ∀ j th, Function.update σ.threads i none j = some th → σ.threads j = some th := by
        intro j th hj
        rcases update_cases hj with ⟨-, hnew⟩ | ⟨-, hold⟩
        · exact nomatch hnew
        · exact hold
      rw [hstep]
      refine ⟨fun j th x hj => h.positioned j th x (hold j th hj),
        fun j th hj => h.plain j th (hold j th hj), fun hR hnone => h.quiet hR fun j th hj => ?_⟩
      by_cases hji : j = i
      · rw [hji, hi] at hj
        obtain rfl := Option.some.inj hj
        exact fun hbetween => nomatch hbetween.2.2
      · refine hnone j th ?_
        dsimp only
        rw [Function.update_of_ne hji]
        exact hj

/-- A plain transfer that has succeeded moves the offset by its count. -/
theorem after_plain_offset {f : OpenFile} {c : KCall} {a : Answer}
    (hc : c.number = .read ∨ c.number = .write) :
    (f.after c a).offset = if scError a.ret = 0 then f.offset + a.ret.toNat else f.offset := by
  unfold OpenFile.after
  by_cases hok : scError a.ret = 0
  · rw [if_neg (not_not.2 hok), if_pos hok]
    rcases hc with hc | hc
    · rw [hc]
    · rw [hc]
  · rw [if_pos hok, if_neg hok]

/-- The offset when a thread makes a call and none is between those of a positioned transfer. -/
theorem Orderly.offset_of_alone {fd : ℤ} {s : Libc} {R : Prop} {σ : Shared ι}
    (h : Orderly fd s R σ) (hR : R) {i : ι} {a : Answer} {th : Thread}
    (hi : σ.threads i = some th) (halone : Uninterrupted σ (.calls i a)) (hth : ¬ th.Between) :
    σ.file.offset = σ.plain := by
  refine h.quiet hR fun j th' hj => ?_
  by_cases hji : j = i
  · rw [hji, hi] at hj
    obtain rfl := Option.some.inj hj
    exact hth
  · exact halone j hji th' hj

/-- The file and the threads after thread `i` has made a call. -/
def afterCall (σ : Shared ι) (i : ι) (op : FileOp) (c : KCall) (next : Answer → Rest) (a : Answer)
    (seen : List (OpenFile × OpenFile)) (plain : ℕ) : Shared ι where
  file := σ.file.after c a
  threads := Function.update σ.threads i
    (some ⟨op, next a, seen ++ [(σ.file, σ.file.after c a)]⟩)
  plain := plain

omit [DecidableEq ι] in
/-- Another thread is between no calls, so it does not see the file change. -/
theorem Orderly.others {fd : ℤ} {s : Libc} {R : Prop} {σ : Shared ι} (h : Orderly fd s R σ) {i : ι}
    {a : Answer} (halone : Uninterrupted σ (.calls i a)) (file : OpenFile) (plain : ℕ) {j : ι}
    (hji : j ≠ i) {th : Thread} (hj : σ.threads j = some th) {x : Transfer}
    (hx : th.op.positioned = some x) :
    Phase x (handleForFd s.fdTable fd) s file (fun k => R → k = plain) th.rest th.seen :=
  (h.positioned j th x hj hx).of_not_between hx (halone j hji th hj)

/-- A thread in a positioned transfer makes its next call. -/
theorem Orderly.callsPositioned {fd : ℤ} {s : Libc} {R : Prop} {σ : Shared ι}
    (h : Orderly fd s R σ) {i : ι} {a : Answer} {op : FileOp} {x : Transfer} {c : KCall}
    {next : Answer → Rest} {seen : List (OpenFile × OpenFile)} (hx : op.positioned = some x)
    (hi : σ.threads i = some ⟨op, .call c next, seen⟩) (hanswer : σ.file.Answers c a)
    (halone : Uninterrupted σ (.calls i a)) (hback : R → seen.length = 3 → scError a.ret = 0) :
    Orderly fd s R (afterCall σ i op c next a seen σ.plain) := by
  -- The first call finds the offset where the plain transfers left it, the last one restores it.
  have hfresh : seen = [] → R → (σ.file.offset : ℤ) = σ.plain := by
    intro hseen hR
    rw [h.offset_of_alone hR hi halone fun hbetween => hbetween.2.1 hseen]
  have hlast : seen.length = 3 → scError a.ret = 0 ∨ ∀ k : ℤ, R → k = σ.plain := by
    intro h3
    by_cases hR : R
    · exact Or.inl (hback hR h3)
    · exact Or.inr fun k hR' => absurd hR' hR
  obtain ⟨hphase, hover⟩ := (h.positioned i _ x hi hx).call hanswer hfresh hlast
  refine ⟨?_, ?_, ?_⟩
  · intro j th y hj hy
    rcases update_cases hj with ⟨-, hnew⟩ | ⟨hji, hold⟩
    · obtain rfl := Option.some.inj hnew
      obtain rfl := Option.some.inj (hx.symm.trans hy)
      exact hphase
    · exact h.others halone _ _ hji hold hy
  · intro j th hj hy
    rcases update_cases hj with ⟨-, hnew⟩ | ⟨-, hold⟩
    · obtain rfl := Option.some.inj hnew
      exact nomatch hx.symm.trans hy
    · exact h.plain j th hold hy
  · intro hR hnone
    cases hnext : next a with
    | done r => exact Int.ofNat.inj (hover r hnext hR)
    | call c' next' =>
      refine absurd ?_ (hnone i _ (Function.update_self ..))
      refine ⟨by rw [hx]; rfl, by simp, ?_⟩
      unfold Thread.next
      dsimp only
      rw [hnext]
      rfl

/-- A thread in a plain transfer makes its call. -/
theorem Orderly.callsPlain {fd : ℤ} {s : Libc} {R : Prop} {σ : Shared ι}
    (h : Orderly fd s R σ) {i : ι} {a : Answer} {op : FileOp} {c : KCall}
    {next : Answer → Rest} {seen : List (OpenFile × OpenFile)} (hx : op.positioned = none)
    (hi : σ.threads i = some ⟨op, .call c next, seen⟩) (halone : Uninterrupted σ (.calls i a)) :
    Orderly fd s R (afterCall σ i op c next a seen
      (if scError a.ret = 0 then σ.plain + a.ret.toNat else σ.plain)) := by
  -- No positioned transfer stands between its seeks, so the offset is that of the plain ones.
  have hplace : R → σ.file.offset = σ.plain := by
    refine fun hR => h.offset_of_alone hR hi halone fun hbetween => ?_
    have hsome := hbetween.1
    dsimp only at hsome
    rw [hx] at hsome
    exact nomatch hsome
  obtain ⟨c', hc, result, hrest⟩ | ⟨r, hrest⟩ := h.plain i _ hi hx
  · obtain ⟨rfl, rfl⟩ := Prog.call.inj hrest
    refine ⟨?_, ?_, ?_⟩
    · intro j th y hj hy
      rcases update_cases hj with ⟨-, hnew⟩ | ⟨hji, hold⟩
      · obtain rfl := Option.some.inj hnew
        exact nomatch hx.symm.trans hy
      · exact h.others halone _ _ hji hold hy
    · intro j th hj hy
      rcases update_cases hj with ⟨-, hnew⟩ | ⟨-, hold⟩
      · obtain rfl := Option.some.inj hnew
        exact Or.inr ⟨_, rfl⟩
      · exact h.plain j th hold hy
    · intro hR _
      show (σ.file.after c a).offset = _
      rw [after_plain_offset hc, hplace hR]
      rfl
  · exact nomatch hrest

/-- A thread makes a kernel call between those of no other positioned transfer. -/
theorem Orderly.calls {fd : ℤ} {s : Libc} {R : Prop} {σ : Shared ι} (h : Orderly fd s R σ) {i : ι}
    {a : Answer} (hanswer : Answered σ (.calls i a)) (halone : Uninterrupted σ (.calls i a))
    (hback : R → SeeksBack σ (.calls i a)) : Orderly fd s R (threadStep fd s σ (.calls i a)) := by
  cases hi : σ.threads i with
  | none =>
    have hsame : threadStep fd s σ (.calls i a) = σ := by
      simp only [threadStep, hi]
    rw [hsame]
    exact h
  | some th =>
    obtain ⟨op, rest, seen⟩ := th
    cases rest with
    | done r =>
      have hsame : threadStep fd s σ (.calls i a) = σ := by
        simp only [threadStep, hi]
      rw [hsame]
      exact h
    | call c next =>
      have hstep : threadStep fd s σ (.calls i a) = afterCall σ i op c next a seen
          (if op.positioned.isNone ∧ scError a.ret = 0 then σ.plain + a.ret.toNat
            else σ.plain) := by
        simp only [threadStep, hi, afterCall]
      rw [hstep]
      cases hx : op.positioned with
      | some x =>
        rw [if_neg (by simp)]
        refine h.callsPositioned hx hi (hanswer _ hi c rfl) halone fun hR => ?_
        exact hback hR _ hi rfl (by rw [hx]; rfl)
      | none =>
        have hplain := h.callsPlain hx hi halone
        simpa using hplain

/-- The condition on a step under which the invariant is kept. -/
theorem Orderly.step {fd : ℤ} {s : Libc} {R : Prop} {σ : Shared ι} (h : Orderly fd s R σ)
    (e : ThreadEvent ι) (hanswer : Answered σ e) (halone : Uninterrupted σ e)
    (hback : R → SeeksBack σ e) : Orderly fd s R (threadStep fd s σ e) := by
  cases e with
  | begins i op => exact h.begins i op
  | calls i a => exact h.calls hanswer halone hback
  | ends i => exact h.ends i

omit [DecidableEq ι] in
/-- A thread that returns has transferred where it should. -/
theorem Orderly.delivers {fd : ℤ} {s : Libc} {R : Prop} {σ : Shared ι} (h : Orderly fd s R σ)
    (e : ThreadEvent ι) : Delivers σ e := by
  cases e with
  | begins i op => trivial
  | calls i a => trivial
  | ends i =>
    rintro ⟨op, rest, seen⟩ hi ⟨r, data⟩ hv
    unfold Thread.returned at hv
    dsimp only at hv
    split at hv
    · next v s' =>
      obtain rfl := Option.some.inj hv
      cases hx : op.positioned with
      | some x => exact (h.positioned i _ x hi hx).transferredAt hx
      | none =>
        cases op with
        | pread n off => cases hx
        | pwrite buf off => cases hx
        | read n => exact trivial
        | write buf => exact trivial
    · cases hv

/-- Plain transfers are where the plain ones before have left the offset. -/
theorem Orderly.keepsOffset {fd : ℤ} {s : Libc} {σ : Shared ι} (h : Orderly fd s True σ)
    (e : ThreadEvent ι) (hanswer : Answered σ e) (halone : Uninterrupted σ e)
    (hback : SeeksBack σ e) : KeepsOffset fd s σ e := by
  refine ⟨?_, (h.step e hanswer halone fun _ => hback).quiet trivial⟩
  cases e with
  | begins i op => trivial
  | ends i => trivial
  | calls i a =>
    intro th hi _ hplain
    refine h.offset_of_alone trivial hi halone fun hbetween => ?_
    have hsome := hbetween.1
    rw [Option.isNone_iff_eq_none.1 hplain] at hsome
    cases hsome

/-- In a run of any threads on a file in which no kernel call comes between those of another
thread's positioned transfer, every `Pread` that succeeds returns bytes of the file from its own
offset, every `Pwrite` that succeeds has written at its own offset only, and when each of them seeks
back with success, none changes the offset that the plain reads and writes use. -/
theorem positioned_exact {fd : ℤ} {s : Libc} {f : OpenFile} {es : List (ThreadEvent ι)}
    (hanswers : Along (threadStep fd s) Answered (Shared.start f) es)
    (halone : Along (threadStep fd s) Uninterrupted (Shared.start f) es) :
    Along (threadStep fd s) Delivers (Shared.start f) es ∧
      (Along (threadStep fd s) SeeksBack (Shared.start f) es →
        Along (threadStep fd s) (KeepsOffset fd s) (Shared.start f) es) := by
  refine ⟨?_, fun hback => ?_⟩
  · refine Along.of_invariant (Orderly fd s False) ?_ (fun σ e hσ _ => hσ.delivers e)
      (start_orderly fd s False f) (along_and.2 ⟨hanswers, halone⟩)
    exact fun σ e hσ he => hσ.step e he.1 he.2 (fun hF => hF.elim)
  · refine Along.of_invariant (Orderly fd s True) ?_ ?_ (start_orderly fd s True f)
      (along_and.2 ⟨hanswers, along_and.2 ⟨halone, hback⟩⟩)
    · exact fun σ e hσ he => hσ.step e he.1 he.2.1 (fun _ => he.2.2)
    · exact fun σ e hσ he => hσ.keepsOffset e he.1 he.2.1 he.2.2

/-! ### Two threads -/

/-- The digits, with the offset at 3. -/
def digits : OpenFile := ⟨[0x30, 0x31, 0x32, 0x33, 0x34, 0x35, 0x36, 0x37, 0x38, 0x39], 3⟩

/-- An answer that is a number. -/
def numberAnswer (ret : ℤ) : Answer := ⟨ret, [], fun _ => 0, 0, []⟩

/-- An answer that is one byte. -/
def byteAnswer (byte : Byte) : Answer := ⟨1, [], fun _ => byte, 0, []⟩

/-- One thread reads a byte at 6, and another one where the offset is. -/
def readTwice : List (ThreadEvent (Fin 2)) :=
  [.begins 0 (.pread 1 6), .begins 1 (.read 1), .calls 0 (numberAnswer 3),
    .calls 0 (numberAnswer 6), .calls 0 (byteAnswer 0x36), .calls 0 (numberAnswer 3),
    .calls 1 (byteAnswer 0x33), .ends 1, .ends 0]

/-- A positioned read and a plain one. -/
theorem positioned_exact_readTwice :
    Along (threadStep 1 initialLibc) Delivers (Shared.start digits) readTwice :=
  (positioned_exact (by decide) (by decide)).1

/-- One thread has moved the offset to 0 when another one moves it to 5. -/
def overtaken : List (ThreadEvent (Fin 2)) :=
  [.begins 0 (.pread 1 0), .begins 1 (.pread 1 5), .calls 0 (numberAnswer 3),
    .calls 0 (numberAnswer 0), .calls 1 (numberAnswer 0), .calls 1 (numberAnswer 5),
    .calls 0 (byteAnswer 0x35), .calls 0 (numberAnswer 3), .ends 0]

/-- The last seek fails, and the read before it has succeeded. -/
def notSoughtBack : List (ThreadEvent (Fin 2)) :=
  [.begins 0 (.pread 1 0), .calls 0 (numberAnswer 3), .calls 0 (numberAnswer 0),
    .calls 0 (byteAnswer 0x30), .calls 0 (numberAnswer (-5)), .ends 0]

/-- A `Pread` at 0 returns the byte at 5, since another thread has moved the offset. And without
other threads a `Pread` that cannot seek back leaves the offset behind its own bytes. -/
theorem pread_overtaken :
    (¬ ∀ (f : OpenFile) (es : List (ThreadEvent (Fin 2))),
      Along (threadStep 1 initialLibc) Answered (Shared.start f) es →
        Along (threadStep 1 initialLibc) Delivers (Shared.start f) es ∧
          Along (threadStep 1 initialLibc) (KeepsOffset 1 initialLibc) (Shared.start f) es) ∧
    ¬ ∀ (f : OpenFile) (es : List (ThreadEvent (Fin 2))),
      Along (threadStep 1 initialLibc) Answered (Shared.start f) es →
        Along (threadStep 1 initialLibc) Uninterrupted (Shared.start f) es →
          Along (threadStep 1 initialLibc) (KeepsOffset 1 initialLibc) (Shared.start f) es := by
  refine ⟨fun hclaim => ?_, fun hclaim => ?_⟩
  · have hdelivers := (hclaim digits overtaken (by decide)).1
    exact absurd hdelivers (by decide)
  · have hkeeps := hclaim digits notSoughtBack (by decide) (by decide)
    exact absurd hkeeps (by decide)

end IUserApps.Sysdeps
