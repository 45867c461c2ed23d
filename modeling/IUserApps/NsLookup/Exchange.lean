import IUserApps.Checked
import Mathlib.Data.List.TakeWhile

/-!
# The exchange over UDP

`exchange_udp` of `nslookup.c` sends the query up to three times and waits for an answer after each.
Anyone may send datagrams to its socket. One is taken for the answer when it has the 12 bytes of a
header, comes from the server and carries the query's ID; every other is passed over, and does not
end the wait.

The kernel is given by what each pass of a wait meets: the time since the query was sent, read
before `poll`, and what `recvfrom` brings when `poll` reports something. A wait ends with its list,
when `poll` reports nothing in the time that is left. Times are in milliseconds. `exchange_answered`
says which datagram is the answer, and that the others change nothing.
-/

namespace IUserApps.NsLookup

open Checked

/-- A pass of a wait in which `poll` reports something: the time since the query was sent, and what
`recvfrom` gives, if it does not fail: the sender and the datagram. -/
structure Pass where
  elapsed : ℤ
  received : Option (BitVec 32 × List Byte)
deriving DecidableEq, Repr

/-- One of the attempts: whether the query could be sent, and the passes of the wait behind it. -/
structure Attempt where
  sent : Bool
  passes : List Pass
deriving DecidableEq, Repr

/-- What the exchange leaves: the length of the answer or -1, the buffer, the queries sent. -/
structure Exchanged where
  got : ℤ
  buffer : List Byte
  queries : ℕ
deriving DecidableEq, Repr

section
variable (server : BitVec 32) (q : List Byte) (timeout : ℤ)

/-- The wait behind a query. -/
def awaitAnswer : List Pass → List Byte → ℤ × List Byte
  | [], r => (-1, r)
  | pass :: passes, r =>
    if timeout - pass.elapsed ≤ 0 then (-1, r)
    else
      match pass.received with
      | none => awaitAnswer passes r
      | some (source, data) =>
        let data := data.take r.length
        let r := overwrite r 0 data
        -- The answer must come from the server and carry our ID.
        if 12 ≤ data.length ∧ source = server ∧ r.getD 0 0 = q.getD 0 0 ∧
            r.getD 1 0 = q.getD 1 0 then
          (data.length, r)
        else awaitAnswer passes r

/-- The loop over the attempts, with `n` left from the `k`-th on. -/
def attemptFrom (attempts : ℕ → Attempt) : ℕ → ℕ → List Byte → Exchanged
  | 0, _, r => ⟨-1, r, 0⟩
  | n + 1, k, r =>
    if (attempts k).sent = false then ⟨-1, r, 1⟩
    else
      let (got, r) := awaitAnswer server q timeout (attempts k).passes r
      if got < 0 then
        let rest := attemptFrom attempts n (k + 1) r
        { rest with queries := rest.queries + 1 }
      else ⟨got, r, 1⟩

/-- The exchange, with a socket or without, and the buffer before it. -/
def exchangeUdp (socket : Bool) (attempts : ℕ → Attempt) (r : List Byte) : Exchanged :=
  if socket = false then ⟨-1, r, 0⟩ else attemptFrom server q timeout attempts 3 0 r

/-! ## Which datagram is the answer -/

/-- What a pass brings of an answer, in a buffer of `room` bytes. -/
def Pass.answer (room : ℕ) (pass : Pass) : Option (List Byte) :=
  pass.received.bind fun p =>
    let data := p.2.take room
    if 12 ≤ data.length ∧ p.1 = server ∧ data.getD 0 0 = q.getD 0 0 ∧
        data.getD 1 0 = q.getD 1 0 then some data
    else none

/-- The pass begins before the time is up. -/
def Pass.inTime (pass : Pass) : Bool := decide (pass.elapsed < timeout)

/-- The first answer of a wait. -/
def firstAnswer (room : ℕ) (passes : List Pass) : Option (List Byte) :=
  (passes.takeWhile (Pass.inTime timeout)).findSome? (Pass.answer server q room)

/-- The first answer of the attempts, up to one whose query cannot be sent. -/
def answerFrom (room : ℕ) (attempts : ℕ → Attempt) : ℕ → ℕ → Option (List Byte)
  | 0, _ => none
  | n + 1, k =>
    if (attempts k).sent = false then none
    else (firstAnswer server q timeout room (attempts k).passes).or
      (answerFrom room attempts n (k + 1))

end

variable {server : BitVec 32} {q r : List Byte} {timeout : ℤ} {room : ℕ} {attempts : ℕ → Attempt}

/-! ## The wait -/

/-- What a wait or an exchange gives is this answer: its length, and the answer at the beginning of
the buffer; or a failure. -/
def Gives (answer : Option (List Byte)) (got : ℤ) (buffer : List Byte) : Prop :=
  answer.elim (got = -1) fun data =>
    got = data.length ∧ 12 ≤ data.length ∧ buffer.take data.length = data

/-- Data at the beginning of a buffer replaces as many bytes. -/
theorem overwrite_zero (r data : List Byte) : overwrite r 0 data = data ++ r.drop data.length := by
  unfold overwrite
  rw [List.take_zero, List.nil_append, Nat.zero_add]

/-- The check of the first bytes of the buffer is one of the datagram's. -/
theorem checked_iff (r : List Byte) {source : BitVec 32} {data : List Byte} :
    (12 ≤ data.length ∧ source = server ∧ (overwrite r 0 data).getD 0 0 = q.getD 0 0 ∧
      (overwrite r 0 data).getD 1 0 = q.getD 1 0) ↔
    12 ≤ data.length ∧ source = server ∧ data.getD 0 0 = q.getD 0 0 ∧
      data.getD 1 0 = q.getD 1 0 := by
  refine and_congr_right fun hlen => ?_
  have hget : ∀ i < 2, (overwrite r 0 data).getD i 0 = data.getD i 0 := by
    intro i hi
    rw [overwrite_zero, List.getD_eq_getElem?_getD, List.getD_eq_getElem?_getD,
      List.getElem?_append_left (by omega)]
  rw [hget 0 (by decide), hget 1 (by decide)]

/-- Waiting gives the first datagram that answers, or a failure. -/
theorem awaitAnswer_gives (passes : List Pass) (r : List Byte) :
    (awaitAnswer server q timeout passes r).2.length = r.length ∧
    Gives (firstAnswer server q timeout r.length passes)
      (awaitAnswer server q timeout passes r).1 (awaitAnswer server q timeout passes r).2 := by
  induction passes generalizing r with
  | nil => exact ⟨rfl, rfl⟩
  | cons pass passes ih =>
    unfold awaitAnswer firstAnswer
    by_cases htime : pass.elapsed < timeout
    · have hin : pass.inTime timeout = true := decide_eq_true htime
      rw [if_neg (by omega), List.takeWhile_cons_of_pos hin, List.findSome?_cons]
      cases hreceived : pass.received with
      | none =>
        have hanswer : pass.answer server q r.length = none := by
          unfold Pass.answer
          rw [hreceived]
          rfl
        rw [hanswer]
        exact ih r
      | some p =>
        obtain ⟨source, data⟩ := p
        have hlen : (overwrite r 0 (data.take r.length)).length = r.length :=
          length_overwrite (by rw [List.length_take]; omega)
        have hanswer : pass.answer server q r.length =
            if 12 ≤ (data.take r.length).length ∧ source = server ∧
                (data.take r.length).getD 0 0 = q.getD 0 0 ∧
                (data.take r.length).getD 1 0 = q.getD 1 0 then some (data.take r.length)
            else none := by
          unfold Pass.answer
          rw [hreceived]
          rfl
        dsimp only
        rw [hanswer]
        by_cases hchecked : 12 ≤ (data.take r.length).length ∧ source = server ∧
            (data.take r.length).getD 0 0 = q.getD 0 0 ∧
            (data.take r.length).getD 1 0 = q.getD 1 0
        · rw [if_pos ((checked_iff r).2 hchecked), if_pos hchecked]
          refine ⟨hlen, rfl, hchecked.1, ?_⟩
          dsimp only
          rw [overwrite_zero, List.take_left]
        · -- Another's datagram: it is in the buffer, and the wait goes on.
          rw [if_neg (fun h => hchecked ((checked_iff r).1 h)), if_neg hchecked]
          have hnext := ih (overwrite r 0 (data.take r.length))
          rw [hlen] at hnext
          exact hnext
    · have hlate : ¬pass.inTime timeout = true := fun h => htime (of_decide_eq_true h)
      rw [if_pos (by omega), List.takeWhile_cons_of_neg hlate]
      exact ⟨rfl, rfl⟩

/-! ## The exchange -/

/-- The attempts give the first answer of any, with no more queries than there are attempts. -/
theorem attemptFrom_gives (n k : ℕ) (r : List Byte) :
    Gives (answerFrom server q timeout r.length attempts n k)
      (attemptFrom server q timeout attempts n k r).got
      (attemptFrom server q timeout attempts n k r).buffer ∧
    (attemptFrom server q timeout attempts n k r).queries ≤ n := by
  induction n generalizing k r with
  | zero => exact ⟨rfl, Nat.le_refl 0⟩
  | succ n ih =>
    unfold attemptFrom answerFrom
    by_cases hsent : (attempts k).sent = false
    · rw [if_pos hsent, if_pos hsent]
      exact ⟨rfl, Nat.le_add_left 1 n⟩
    · rw [if_neg hsent, if_neg hsent]
      obtain ⟨hlen, hgives⟩ := @awaitAnswer_gives server q timeout (attempts k).passes r
      generalize awaitAnswer server q timeout (attempts k).passes r = out at hlen hgives
      obtain ⟨got, r'⟩ := out
      dsimp only at hlen hgives ⊢
      cases hanswer : firstAnswer server q timeout r.length (attempts k).passes with
      | none =>
        rw [hanswer] at hgives
        have hgot : got = -1 := hgives
        obtain ⟨hrest, hqueries⟩ := ih (k + 1) r'
        rw [hlen] at hrest
        rw [if_pos (by omega), Option.none_or]
        exact ⟨hrest, Nat.succ_le_succ hqueries⟩
      | some data =>
        rw [hanswer] at hgives
        have hgot : got = data.length := hgives.1
        rw [if_neg (by omega), Option.some_or]
        exact ⟨hgives, Nat.le_add_left 1 n⟩

/-- The attempt without the datagrams of others. -/
def Attempt.answers (server : BitVec 32) (q : List Byte) (room : ℕ) (a : Attempt) : Attempt :=
  { a with passes := a.passes.filter fun pass => (pass.answer server q room).isSome }

/-- With a clock that does not go back the wait is for what comes in time. -/
theorem takeWhile_eq_filter {passes : List Pass}
    (h : passes.Pairwise fun x y => x.elapsed ≤ y.elapsed) :
    passes.takeWhile (Pass.inTime timeout) = passes.filter (Pass.inTime timeout) := by
  induction passes with
  | nil => rfl
  | cons pass passes ih =>
    obtain ⟨hle, hrest⟩ := List.pairwise_cons.1 h
    by_cases htime : pass.inTime timeout = true
    · rw [List.takeWhile_cons_of_pos htime, List.filter_cons_of_pos htime, ih hrest]
    · have hnone : (pass :: passes).filter (Pass.inTime timeout) = [] := by
        refine List.filter_eq_nil_iff.2 fun x hx => ?_
        have hfirst : pass.elapsed ≤ x.elapsed := by
          rcases List.mem_cons.1 hx with rfl | hx
          · exact Int.le_refl _
          · exact hle x hx
        simp only [Pass.inTime, decide_eq_true_eq] at htime ⊢
        omega
      rw [hnone, List.takeWhile_cons_of_neg htime]

/-- The first answer is found among the answers. -/
theorem firstAnswer_answers {passes : List Pass}
    (h : passes.Pairwise fun x y => x.elapsed ≤ y.elapsed) :
    firstAnswer server q timeout room
        (passes.filter fun pass => (pass.answer server q room).isSome) =
      firstAnswer server q timeout room passes := by
  unfold firstAnswer
  rw [takeWhile_eq_filter (h.filter _), takeWhile_eq_filter h, List.filter_filter,
    ← List.head?_filterMap, ← List.head?_filterMap, List.filterMap_filter, List.filterMap_filter]
  congr 2
  funext pass
  cases pass.answer server q room <;> simp

/-- Datagrams that answer nothing can be left out. -/
theorem answerFrom_answers (n k : ℕ)
    (h : ∀ k, (attempts k).passes.Pairwise fun x y => x.elapsed ≤ y.elapsed) :
    answerFrom server q timeout room (fun k => (attempts k).answers server q room) n k =
      answerFrom server q timeout room attempts n k := by
  induction n generalizing k with
  | zero => rfl
  | succ n ih =>
    unfold answerFrom
    rw [ih (k + 1)]
    have hfirst := @firstAnswer_answers server q timeout room (attempts k).passes (h k)
    unfold Attempt.answers
    dsimp only
    rw [hfirst]

/-- Whatever arrives, from anyone, the exchange sends the query three times at most and gives the
first datagram that comes in time from the server with the query's ID, whole up to the size of the
buffer, or else a failure. With a clock that does not go back the datagrams of others might as well
not have come. -/
theorem exchange_answered (server : BitVec 32) (q r : List Byte) (timeout : ℤ)
    (attempts : ℕ → Attempt) :
    Gives (answerFrom server q timeout r.length attempts 3 0)
      (exchangeUdp server q timeout true attempts r).got
      (exchangeUdp server q timeout true attempts r).buffer ∧
    (exchangeUdp server q timeout true attempts r).queries ≤ 3 ∧
    ((∀ k, (attempts k).passes.Pairwise fun x y => x.elapsed ≤ y.elapsed) →
      Gives (answerFrom server q timeout r.length attempts 3 0)
        (exchangeUdp server q timeout true
          (fun k => (attempts k).answers server q r.length) r).got
        (exchangeUdp server q timeout true
          (fun k => (attempts k).answers server q r.length) r).buffer) := by
  obtain ⟨hgives, hqueries⟩ := @attemptFrom_gives server q timeout attempts 3 0 r
  refine ⟨hgives, hqueries, fun h => ?_⟩
  obtain ⟨halone, -⟩ := @attemptFrom_gives server q timeout
    (fun k => (attempts k).answers server q r.length) 3 0 r
  rw [answerFrom_answers 3 0 h] at halone
  exact halone

/-- A query whose first answer is lost, then a forged answer from another address and the server's.
-/
def forgedFirst (k : ℕ) : Attempt :=
  if k = 1 then
    ⟨true, [⟨20, some (0x0A0000FF, [0x12, 0x34, 0x81, 0x83, 0, 1, 0, 0, 0, 0, 0, 0])⟩,
      ⟨30, some (0x0A000203, [0x12, 0x34, 0x81, 0x80, 0, 1, 0, 0, 0, 0, 0, 0])⟩]⟩
  else ⟨true, []⟩

/-- A forged datagram comes before the server's answer. -/
theorem exchange_answered_forged :
    let r := List.replicate 65535 (0 : Byte)
    let exchanged := exchangeUdp 0x0A000203 [0x12, 0x34] 2000 true
      (fun k => (forgedFirst k).answers 0x0A000203 [0x12, 0x34] r.length) r
    Gives (some [0x12, 0x34, 0x81, 0x80, 0, 1, 0, 0, 0, 0, 0, 0]) exchanged.got
      exchanged.buffer := by
  intro r
  have hclock : ∀ k, (forgedFirst k).passes.Pairwise fun x y => x.elapsed ≤ y.elapsed := by
    intro k
    unfold forgedFirst
    split <;> decide
  have hroom : r.length = 65535 := List.length_replicate
  have hanswer : answerFrom 0x0A000203 [0x12, 0x34] 2000 65535 forgedFirst 3 0 =
      some [0x12, 0x34, 0x81, 0x80, 0, 1, 0, 0, 0, 0, 0, 0] := by decide
  clear_value r
  obtain ⟨-, -, hothers⟩ := exchange_answered 0x0A000203 [0x12, 0x34] r 2000 forgedFirst
  have hgives := hothers hclock
  rw [hroom] at hgives
  rw [hanswer] at hgives
  rw [hroom]
  exact hgives

end IUserApps.NsLookup
