import IUserApps.Runs
import IUserApps.Words
import Mathlib.Data.Finset.Card
import Mathlib.Tactic.SplitIfs

/-!
# The counts of `ping`

The loop of `ping.c` sends a request when one is due and takes the next reply, until all requests
are sent and either answered or given up, or until it is interrupted. The time of a request is kept
by its sequence number, of 16 bits, and is 0 without one or once it is answered; here it is only
whether there is one. What a pass meets is its input: whether the program was interrupted before it,
and of the clock whether a request is due and whether it is time to give up.

In every state of a run the requests that were answered, that could not be sent and that are still
awaited are no more than those transmitted, and just as many up to 65536 of them: then a loop that
neither gives up nor is interrupted ends exactly when nothing is awaited (`ping_counts`). The times
of the replies and the texts that are printed are left out.
-/

namespace IUserApps.Ping

open Runs

/-- The sequence numbers, `MAX_TRACKED`. -/
def maxTracked : ℕ := 65536

/-- A request: the checksum and the identifier are the kernel's. -/
def request (size seq : ℕ) : List Byte :=
  [8, 0, 0, 0, 0, 0, BitVec.ofNat 8 (seq / 256), BitVec.ofNat 8 seq] ++
    (List.range size).map fun i => BitVec.ofNat 8 (i + 8)

/-- The sequence number of a packet that is a reply. -/
def replySeq (packet : List Byte) : Option ℕ :=
  if packet.length < 8 ∨ packet.getD 0 0 ≠ 0 then none
  else some ((packet.getD 6 0).toNat * 256 + (packet.getD 7 0).toNat)

/-- The counts, and which requests are awaited. -/
structure State where
  transmitted : ℕ
  received : ℕ
  duplicates : ℕ
  errors : ℕ
  /-- A request with this sequence number is awaited. -/
  awaited : ℕ → Bool
  done : Bool

/-- Nothing has been sent yet. -/
def State.start : State := ⟨0, 0, 0, 0, fun _ => false, false⟩

/-- What a pass of the loop meets. The packet is none when none comes in time. -/
structure Pass where
  /-- `SIGINT` has come since the pass before. -/
  stop : Bool
  due : Bool
  sent : Bool
  expired : Bool
  packet : Option (List Byte)

variable (count : Option ℕ)

/-- The sequence number of the next request. -/
def State.next (s : State) : ℕ := (s.transmitted + 1) % maxTracked

/-- Sends a request if it is time for one. -/
def State.send (s : State) (i : Pass) : State :=
  if count.all (fun n => decide (s.transmitted < n)) && i.due then
    if i.sent then
      { s with transmitted := s.transmitted + 1, awaited := Function.update s.awaited s.next true }
    else { s with transmitted := s.transmitted + 1, errors := s.errors + 1 }
  else s

/-- Takes a reply: one that is not awaited is a duplicate. -/
def State.receive (s : State) (seq : ℕ) : State :=
  if s.awaited seq then
    { s with received := s.received + 1, awaited := Function.update s.awaited seq false }
  else { s with duplicates := s.duplicates + 1 }

/-- All requests are sent, and each has failed or been answered, or it is time to give up. -/
def State.complete (s : State) (expired : Bool) : Bool :=
  count.any fun n => decide (s.transmitted = n) && (decide (n ≤ s.received + s.errors) || expired)

/-- A pass of the loop, with the test of `stop` before it. -/
def State.pass (s : State) (i : Pass) : State :=
  if s.done then s
  else if i.stop then { s with done := true }
  else
    let s := s.send count i
    if s.complete count i.expired then { s with done := true }
    else (i.packet.bind replySeq).elim s s.receive

/-- The percentage that is printed. -/
def State.loss (s : State) : ℕ :=
  if s.transmitted ≠ 0 then (s.transmitted - s.received) * 100 / s.transmitted else 0

/-- What the program returns. -/
def State.status (s : State) : ℕ := if s.received ≠ 0 then 0 else 1

/-! ## Packets -/

/-- A reply to a request: its bytes behind the first six, which are the kernel's, come back. -/
def IsEcho (request packet : List Byte) : Prop :=
  ∃ code c d e f : Byte, packet = 0 :: code :: c :: d :: e :: f :: request.drop 6

omit count in
/-- It has the number of the request. -/
theorem IsEcho.replySeq {size seq : ℕ} (hseq : seq < maxTracked) {packet : List Byte}
    (h : IsEcho (request size seq) packet) : replySeq packet = some seq := by
  obtain ⟨code, c, d, e, f, rfl⟩ := h
  unfold maxTracked at hseq
  have hhigh : (BitVec.ofNat 8 (seq / 256)).toNat = seq / 256 := by
    rw [BitVec.toNat_ofNat]
    omega
  have hlow : (BitVec.ofNat 8 seq).toNat = seq % 256 := BitVec.toNat_ofNat seq 8
  simp [Ping.replySeq, request, hhigh, hlow]
  omega

omit count in
/-- A reply's number is one of those that are tracked. -/
theorem replySeq_lt {packet : List Byte} {seq : ℕ} (h : replySeq packet = some seq) :
    seq < maxTracked := by
  unfold replySeq at h
  split at h
  · exact nomatch h
  · have hhigh := (packet.getD 6 0).isLt
    have hlow := (packet.getD 7 0).isLt
    rw [← Option.some.inj h]
    unfold maxTracked
    omega

/-! ## The requests that are awaited -/

/-- How many requests are awaited. -/
def State.pending (s : State) : ℕ :=
  ((Finset.range maxTracked).filter fun seq => s.awaited seq = true).card

omit count in
/-- Without an awaited request none is pending. -/
theorem pending_none {s : State} (h : s.awaited = fun _ => false) : s.pending = 0 := by
  unfold State.pending
  rw [h]
  simp

omit count in
/-- One more is awaited, or the one before it with this number no longer. -/
theorem pending_set {awaited : ℕ → Bool} {seq : ℕ} (h : seq < maxTracked) :
    ((Finset.range maxTracked).filter fun k => Function.update awaited seq true k = true).card =
      ((Finset.range maxTracked).filter fun k => awaited k = true).card +
        if awaited seq then 0 else 1 := by
  have hset : ((Finset.range maxTracked).filter fun k => Function.update awaited seq true k = true) =
      insert seq ((Finset.range maxTracked).filter fun k => awaited k = true) := by
    ext k
    by_cases hk : k = seq
    · simp [hk, h]
    · simp [hk]
  rw [hset]
  split_ifs with hold
  · rw [Finset.insert_eq_of_mem (by simp [h, hold]), Nat.add_zero]
  · rw [Finset.card_insert_of_notMem (by simp [hold])]

omit count in
/-- An awaited request that is answered is pending no more. -/
theorem pending_clear {awaited : ℕ → Bool} {seq : ℕ} (h : seq < maxTracked)
    (hold : awaited seq = true) :
    ((Finset.range maxTracked).filter fun k => Function.update awaited seq false k = true).card + 1 =
      ((Finset.range maxTracked).filter fun k => awaited k = true).card := by
  have hset : ((Finset.range maxTracked).filter fun k => awaited k = true) =
      insert seq ((Finset.range maxTracked).filter fun k =>
        Function.update awaited seq false k = true) := by
    ext k
    by_cases hk : k = seq
    · simp [hk, h, hold]
    · simp [hk]
  rw [hset, Finset.card_insert_of_notMem (by simp)]

/-! ## The counts -/

/-- What holds in every state. -/
structure Counts (s : State) : Prop where
  counted : s.received + s.errors + s.pending ≤ s.transmitted
  all : s.transmitted ≤ maxTracked → s.received + s.errors + s.pending = s.transmitted
  limit : ∀ n ∈ count, s.transmitted ≤ n
  /-- A request that is awaited was sent. -/
  sent : ∀ seq, s.awaited seq = true → ∃ k, 0 < k ∧ k ≤ s.transmitted ∧ k % maxTracked = seq

variable {count} {s : State} {i : Pass}

/-- Nothing is counted yet. -/
theorem counts_start : Counts count .start where
  counted := by rw [pending_none rfl]; decide
  all := by rw [pending_none rfl]; exact fun _ => rfl
  limit n _ := Nat.zero_le n
  sent seq h := nomatch h

/-- A request is sent only below the count. -/
theorem transmitted_lt
    (h : (count.all (fun n => decide (s.transmitted < n)) && i.due) = true) :
    ∀ n ∈ count, s.transmitted + 1 ≤ n := by
  intro n hn
  rw [hn] at h
  have hlt : s.transmitted < n := by simpa using (Bool.and_eq_true_iff.1 h).1
  exact hlt

/-- A request that is sent is awaited, and one that cannot be sent counts as an error. -/
theorem Counts.send (h : Counts count s) (i : Pass) : Counts count (s.send count i) := by
  have hcounted := h.counted
  have hall := h.all
  unfold State.pending at hcounted hall
  unfold State.send
  split_ifs with hdue hsent
  · have hnext : s.next < maxTracked := Nat.mod_lt _ (by decide)
    have hpending := @pending_set s.awaited s.next hnext
    -- The number is new up to the last of them; then it may be that of a request still awaited.
    have hfresh : s.transmitted < maxTracked → s.awaited s.next = false := by
      intro hlt
      by_contra hold
      obtain ⟨k, hpos, hle, hk⟩ := h.sent s.next (by simpa using hold)
      unfold State.next maxTracked at *
      omega
    refine ⟨?_, ?_, transmitted_lt hdue, ?_⟩
    · unfold State.pending
      dsimp only
      rw [hpending]
      split_ifs <;> omega
    · intro hle
      unfold State.pending
      dsimp only at hle ⊢
      have hbefore := hall (by omega)
      rw [hpending, hfresh (by omega), if_neg Bool.false_ne_true]
      omega
    · intro seq hseq
      dsimp only at hseq ⊢
      by_cases heq : seq = s.next
      · exact ⟨s.transmitted + 1, Nat.succ_pos _, Nat.le_refl _, heq.symm⟩
      · rw [Function.update_of_ne heq] at hseq
        obtain ⟨k, hpos, hle, hk⟩ := h.sent seq hseq
        exact ⟨k, hpos, Nat.le_succ_of_le hle, hk⟩
  · refine ⟨?_, ?_, transmitted_lt hdue, ?_⟩
    · unfold State.pending
      dsimp only
      omega
    · intro hle
      unfold State.pending
      dsimp only at hle ⊢
      have hbefore := hall (by omega)
      omega
    · intro seq hseq
      obtain ⟨k, hpos, hle, hk⟩ := h.sent seq hseq
      exact ⟨k, hpos, Nat.le_succ_of_le hle, hk⟩
  · exact h

/-- A reply ends a pending request, or is a duplicate. -/
theorem Counts.receive (h : Counts count s) {seq : ℕ} (hseq : seq < maxTracked) :
    Counts count (s.receive seq) := by
  unfold State.receive
  split_ifs with hold
  · have hpending := pending_clear hseq hold
    have hcounted := h.counted
    have hall := h.all
    unfold State.pending at hcounted hall
    refine ⟨?_, ?_, h.limit, ?_⟩
    · unfold State.pending
      dsimp only
      omega
    · intro hle
      unfold State.pending
      dsimp only at hle ⊢
      have hbefore := hall hle
      omega
    · intro seq' hseq'
      dsimp only at hseq'
      refine h.sent seq' ?_
      by_cases heq : seq' = seq
      · rwa [heq]
      · rwa [Function.update_of_ne heq] at hseq'
  · exact ⟨h.counted, h.all, h.limit, h.sent⟩

/-- A pass of the loop keeps the counts. -/
theorem Counts.pass (h : Counts count s) (i : Pass) : Counts count (s.pass count i) := by
  unfold State.pass
  split_ifs with hdone hstop
  · exact h
  · exact ⟨h.counted, h.all, h.limit, h.sent⟩
  have hsend := h.send i
  dsimp only
  split_ifs with hcomplete
  · exact ⟨hsend.counted, hsend.all, hsend.limit, hsend.sent⟩
  · cases hreply : i.packet.bind replySeq with
    | none => exact hsend
    | some seq =>
      obtain ⟨packet, -, hseq⟩ := Option.bind_eq_some_iff.1 hreply
      exact hsend.receive (replySeq_lt hseq)

/-- Each reply is counted once, as an answer or as a duplicate. -/
theorem receive_replies (s : State) (seq : ℕ) :
    (s.receive seq).received + (s.receive seq).duplicates = s.received + s.duplicates + 1 ∧
      (s.receive seq).done = s.done := by
  unfold State.receive
  split_ifs
  · exact ⟨by dsimp only; omega, rfl⟩
  · exact ⟨by dsimp only; omega, rfl⟩

/-- Sending leaves what has been received. -/
theorem send_replies (count : Option ℕ) (s : State) (i : Pass) :
    (s.send count i).received = s.received ∧ (s.send count i).duplicates = s.duplicates ∧
      (s.send count i).done = s.done := by
  unfold State.send
  split_ifs <;> exact ⟨rfl, rfl, rfl⟩

/-- The replies that came in some passes. -/
def replies (passes : List Pass) : ℕ := passes.countP fun i => (i.packet.bind replySeq).isSome

/-- Nothing happens after the end. -/
theorem pass_done (h : s.done = true) (passes : List Pass) : passes.foldl (State.pass count) s = s :=
  foldl_still fun _ _ => if_pos h

/-- No more replies are counted than come, and before the end all of them. -/
theorem run_replies (count : Option ℕ) (passes : List Pass) (h : s.done = false) :
    let t := passes.foldl (State.pass count) s
    t.received + t.duplicates ≤ s.received + s.duplicates + replies passes ∧
      (t.done = false → t.received + t.duplicates = s.received + s.duplicates + replies passes) := by
  induction passes generalizing s with
  | nil => exact ⟨Nat.le_refl _, fun _ => rfl⟩
  | cons i passes ih =>
    obtain ⟨hreceived, hduplicates, hdone⟩ := send_replies count s i
    have hreplies : replies (i :: passes) =
        replies passes + if (i.packet.bind replySeq).isSome then 1 else 0 := List.countP_cons
    rw [List.foldl_cons, hreplies]
    by_cases hstop : i.stop = true
    · have hpass : s.pass count i = { s with done := true } := by
        unfold State.pass
        rw [h, if_neg Bool.false_ne_true, if_pos hstop]
      rw [hpass, pass_done rfl]
      exact ⟨by dsimp only; omega, fun hd => nomatch hd⟩
    by_cases hcomplete : (s.send count i).complete count i.expired = true
    · have hpass : s.pass count i = { s.send count i with done := true } := by
        unfold State.pass
        rw [h, if_neg Bool.false_ne_true, if_neg hstop, if_pos hcomplete]
      rw [hpass, pass_done rfl]
      exact ⟨by dsimp only; omega, fun hd => nomatch hd⟩
    · have hpass : s.pass count i =
          (i.packet.bind replySeq).elim (s.send count i) (s.send count i).receive := by
        unfold State.pass
        rw [h, if_neg Bool.false_ne_true, if_neg hstop, if_neg hcomplete]
      rw [hpass]
      cases hreply : i.packet.bind replySeq with
      | none =>
        have hrest := ih (s := s.send count i) (hdone.trans h)
        rw [hreceived, hduplicates] at hrest
        exact hrest
      | some seq =>
        obtain ⟨hcount, hsame⟩ := receive_replies (s.send count i) seq
        have hrest := ih (s := (s.send count i).receive seq) (hsame.trans (hdone.trans h))
        rw [hcount, hreceived, hduplicates] at hrest
        rw [Option.elim_some, Option.isSome_some, if_pos rfl]
        exact ⟨by have := hrest.1; omega, fun hd => by have := hrest.2 hd; omega⟩

/-- The loop ends when every request was sent, unless it is interrupted, and answered or failed,
unless it gave up. -/
structure Ended (count : Option ℕ) (stopped gaveUp : Bool) (s : State) : Prop where
  sent : s.done = true → stopped = false → count = some s.transmitted
  answered : s.done = true → stopped = false → gaveUp = false →
    s.transmitted ≤ s.received + s.errors

/-- A pass ends the loop only when it may. -/
theorem Ended.pass {stopped gaveUp : Bool} (h : Ended count stopped gaveUp s)
    (hstop : i.stop = true → stopped = true) (hi : i.expired = true → gaveUp = true) :
    Ended count stopped gaveUp (s.pass count i) := by
  unfold State.pass
  split_ifs with hdone hnow
  · exact h
  · rw [hstop hnow]
    exact ⟨fun _ hnot => (nomatch hnot), fun _ hnot => (nomatch hnot)⟩
  dsimp only
  obtain ⟨-, -, hsame⟩ := send_replies count s i
  split_ifs with hcomplete
  · obtain ⟨n, hn, hall⟩ := (Option.any_eq_true _ _).1 hcomplete
    have hends : (s.send count i).transmitted = n ∧
        (n ≤ (s.send count i).received + (s.send count i).errors ∨ i.expired = true) := by
      simpa using hall
    refine ⟨fun _ _ => by rw [hends.1]; exact hn, fun _ _ hgave => ?_⟩
    rcases hends.2 with hanswered | hover
    · dsimp only
      omega
    · rw [hi hover] at hgave
      exact nomatch hgave
  · have hopen : ((i.packet.bind replySeq).elim (s.send count i) (s.send count i).receive).done =
        false := by
      cases i.packet.bind replySeq with
      | none => exact hsame.trans (by simpa using hdone)
      | some seq => exact ((receive_replies _ seq).2.trans hsame).trans (by simpa using hdone)
    constructor
    · intro hd
      rw [hopen] at hd
      exact nomatch hd
    · intro hd
      rw [hopen] at hd
      exact nomatch hd

/-- When all requests are sent and none is awaited, the next pass is the last. -/
theorem Counts.ends {n : ℕ} (h : Counts (some n) s) (hn : n ≤ maxTracked)
    (hsent : s.transmitted = n) (hnone : s.pending = 0) (i : Pass) :
    (s.pass (some n) i).done = true := by
  have hall := h.all (by omega)
  have hsend : s.send (some n) i = s := by
    unfold State.send
    rw [if_neg]
    simp [hsent]
  have hcomplete : s.complete (some n) i.expired = true := by
    have hanswered : n ≤ s.received + s.errors := by omega
    simp [State.complete, hsent, hanswered]
  unfold State.pass
  split_ifs with hdone hstop
  · exact hdone
  · rfl
  · rw [hsend, if_pos hcomplete]

/-- The reply to a request that comes in the pass that sends it is counted as its answer. -/
theorem Counts.echo (h : Counts count s) (hdone : s.done = false) (hstop : i.stop = false)
    (hdue : (count.all (fun n => decide (s.transmitted < n)) && i.due) = true)
    (hsent : i.sent = true) (hover : i.expired = false) {size : ℕ} {packet : List Byte}
    (hecho : IsEcho (request size s.next) packet) (hpacket : i.packet = some packet) :
    (s.pass count i).received = s.received + 1 := by
  have hnext : s.next < maxTracked := Nat.mod_lt _ (by decide)
  have hsend : s.send count i =
      { s with
        transmitted := s.transmitted + 1
        awaited := Function.update s.awaited s.next true } := by
    unfold State.send
    rw [if_pos hdue, if_pos hsent]
  -- The request is awaited, so the loop does not end before the reply is taken.
  have hawaited : (s.send count i).awaited s.next = true := by
    rw [hsend]
    exact Function.update_self ..
  have hpending : 0 < (s.send count i).pending :=
    Finset.card_pos.2 ⟨s.next, by simpa [hnext] using hawaited⟩
  have hcounted := (h.send i).counted
  have hopen : ¬(s.send count i).complete count i.expired = true := by
    intro hcomplete
    obtain ⟨n, -, hall⟩ := (Option.any_eq_true _ _).1 hcomplete
    have hends : (s.send count i).transmitted = n ∧
        n ≤ (s.send count i).received + (s.send count i).errors := by
      simpa [hover] using hall
    omega
  unfold State.pass
  rw [hdone, if_neg Bool.false_ne_true, hstop, if_neg Bool.false_ne_true]
  dsimp only
  rw [if_neg hopen, hpacket, Option.bind_some, hecho.replySeq hnext, Option.elim_some]
  unfold State.receive
  rw [if_pos hawaited, hsend]

/-- The percentage is one, and all of it when nothing was received. -/
theorem loss_le {s : State} (h : s.received ≤ s.transmitted) :
    s.loss ≤ 100 ∧ (0 < s.transmitted → (s.status = 1 ↔ s.loss = 100)) := by
  unfold State.loss State.status
  by_cases hzero : s.transmitted = 0
  · rw [if_neg (not_not.2 hzero)]
    exact ⟨by decide, fun hpos => absurd hzero (Nat.pos_iff_ne_zero.1 hpos)⟩
  · have hpos := Nat.pos_of_ne_zero hzero
    have hle : (s.transmitted - s.received) * 100 / s.transmitted ≤ 100 :=
      Nat.div_le_of_le_mul (Nat.mul_le_mul_right 100 (Nat.sub_le _ _))
    rw [if_pos hzero]
    refine ⟨hle, fun _ => ?_⟩
    split_ifs with hreceived
    · have hlt : (s.transmitted - s.received) * 100 / s.transmitted < 100 :=
        Nat.div_lt_of_lt_mul (by omega)
      exact iff_of_false (by decide) (Nat.ne_of_lt hlt)
    · rw [not_not.1 hreceived, Nat.sub_zero, Nat.mul_div_cancel_left 100 hpos]
      exact iff_of_true rfl rfl

/-- In every state of a run: the requests that were answered, that failed and that are awaited are
no more than those transmitted, and just as many up to 65536 of them; no more are transmitted than
asked for; each reply that came was counted once, as an answer or as a duplicate, and one to the
request that was just sent as an answer. A loop that is not interrupted ends with all requests
transmitted, and unless it gave up with none that is awaited; up to 65536 requests it does not go on
then, and it does not go on when it is interrupted. The percentage that is lost is one, and when
something was transmitted it is 100 if and only if the status is 1. -/
theorem ping_counts (count : Option ℕ) (passes : List Pass) :
    let s := passes.foldl (State.pass count) .start
    (s.received + s.errors + s.pending ≤ s.transmitted ∧
      (s.transmitted ≤ maxTracked → s.received + s.errors + s.pending = s.transmitted) ∧
      ∀ n ∈ count, s.transmitted ≤ n) ∧
    (s.received + s.duplicates ≤ replies passes ∧
      (s.done = false → s.received + s.duplicates = replies passes)) ∧
    (∀ i size packet, s.done = false → i.stop = false →
      (count.all (fun n => decide (s.transmitted < n)) && i.due) = true → i.sent = true →
      i.expired = false → IsEcho (request size s.next) packet → i.packet = some packet →
      (s.pass count i).received = s.received + 1) ∧
    (s.done = true → (∀ i ∈ passes, i.stop = false) →
      count = some s.transmitted ∧ ((∀ i ∈ passes, i.expired = false) →
        s.received + s.errors = s.transmitted ∧ s.pending = 0)) ∧
    (∀ i, (i.stop = true ∨ ∃ n ≤ maxTracked, count = some n ∧ s.transmitted = n ∧ s.pending = 0) →
      (s.pass count i).done = true) ∧
    s.loss ≤ 100 ∧ (0 < s.transmitted → (s.status = 1 ↔ s.loss = 100)) := by
  intro s
  -- The counts and the reasons for the end are invariants of the passes.
  have hall : Along (State.pass count) (fun _ i => i ∈ passes) State.start passes := by
    refine along_iff.2 ?_
    rintro as i bs rfl
    simp
  have hcounts : Counts count s :=
    foldl_of_invariant (Counts count) (fun _ i h _ => h.pass i) counts_start hall
  have hended : Ended count (passes.any Pass.stop) (passes.any Pass.expired) s := by
    refine foldl_of_invariant (Ended count (passes.any Pass.stop) (passes.any Pass.expired))
      (fun _ i h hi => h.pass (fun hstop => ?_) fun hover => ?_)
      ⟨fun h => (nomatch h), fun h => (nomatch h)⟩ hall
    · exact List.any_eq_true.2 ⟨i, hi, hstop⟩
    · exact List.any_eq_true.2 ⟨i, hi, hover⟩
  obtain ⟨hle, heq⟩ := run_replies count passes (show State.start.done = false from rfl)
  have hzero : State.start.received + State.start.duplicates = 0 := rfl
  rw [hzero, Nat.zero_add] at hle heq
  have hcounted := hcounts.counted
  refine ⟨⟨hcounted, hcounts.all, hcounts.limit⟩, ⟨hle, heq⟩, ?_, fun hdone hstop => ?_, ?_, ?_⟩
  · intro i size packet hopen hstop hdue hsent hover hecho hpacket
    exact hcounts.echo hopen hstop hdue hsent hover hecho hpacket
  · -- Without an interrupt the loop ends when all requests are sent, and answered unless it gave up.
    have hstopped : passes.any Pass.stop = false := List.any_eq_false.2 (by simpa using hstop)
    refine ⟨hended.sent hdone hstopped, fun hover => ?_⟩
    have hgave : passes.any Pass.expired = false := List.any_eq_false.2 (by simpa using hover)
    have hanswered := hended.answered hdone hstopped hgave
    exact ⟨by omega, by omega⟩
  · -- It does end on an interrupt, and when nothing is left to wait for.
    rintro i (hstop | ⟨n, hn, rfl, hsent, hnone⟩)
    · unfold State.pass
      split_ifs with hdone
      · exact hdone
      · rfl
    · exact hcounts.ends hn hsent hnone i
  · exact loss_le (by omega)

end IUserApps.Ping
