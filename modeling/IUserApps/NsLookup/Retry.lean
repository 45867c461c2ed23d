import IUserApps.Checked
import IUserApps.Interact

/-!
# The retry over TCP

`main` of `nslookup.c` asks again over TCP when the answer to its UDP query is truncated. The retry
reads into the buffer that holds the UDP answer, and `main` goes on with that buffer whether or not
the retry succeeds. `retry_keeps_iff` says what it parses then.
-/

namespace IUserApps.NsLookup

open Checked Interact

/-- The options of a socket that the retry sets. -/
inductive SocketOption
  | rcvTimeo
  | sndTimeo
deriving DecidableEq, Repr

/-- The calls of the retry; its socket is one of streams. -/
inductive Call
  | socket
  | setsockopt (fd : ℤ) (option : SocketOption) (timeval : ℤ × ℤ)
  | connect (fd : ℤ) (server : BitVec 32)
  | send (fd : ℤ) (data : List Byte)
  | recv (fd : ℤ) (n : ℕ)
  | close (fd : ℤ)
deriving DecidableEq, Repr

/-- A number, or what was received. -/
inductive Answer
  | value (v : ℤ)
  | bytes (data : List Byte)
deriving DecidableEq, Repr

/-- The number that a call other than `recv` returns. -/
def Answer.toInt : Answer → ℤ
  | value v => v
  | bytes _ => -1

/-- What a `recv` of `n` bytes stores: nothing when it fails, times out or is at the end. -/
def Answer.stored (n : ℕ) : Answer → List Byte
  | value _ => []
  | bytes data => data.take n

/-- The loop of `read_all`, with `got` bytes of `n` received. Every pass that goes on receives a byte
or more, so the number of bytes that are missing bounds the passes. -/
def readAllFrom (fd : ℤ) (n : ℕ) : ℕ → List Byte → ℕ → Prog Call Answer (ℤ × List Byte)
  | 0, buf, got => .done (got, buf)
  | fuel + 1, buf, got =>
    if got < n then
      .call (.recv fd (n - got)) fun a =>
        let data := a.stored (n - got)
        if data = [] then .done (-1, buf)
        else readAllFrom fd n fuel (overwrite buf got data) (got + data.length)
    else .done (got, buf)

/-- Reads until `n` bytes are there or a call brings none. -/
def readAll (fd : ℤ) (buf : List Byte) (n : ℕ) : Prog Call Answer (ℤ × List Byte) :=
  readAllFrom fd n n buf 0

/-- What `exchange_tcp` does between opening its socket and closing it. -/
def exchangeOn (fd : ℤ) (server : BitVec 32) (q r : List Byte) (rcap : ℕ) :
    Prog Call Answer (ℤ × List Byte) :=
  let len := [BitVec.ofNat 8 (q.length >>> 8), BitVec.ofNat 8 q.length]
  .call (.connect fd server) fun a =>
    if a.toInt ≠ 0 then .done (-1, r)
    else .call (.send fd len) fun a =>
      if a.toInt ≠ 2 then .done (-1, r)
      else .call (.send fd q) fun a =>
        if a.toInt ≠ q.length then .done (-1, r)
        else (readAll fd len 2).bind fun (got, len) =>
          if got ≠ 2 then .done (-1, r)
          else
            let n := ((len.getD 0 0).toNat <<< 8) ||| (len.getD 1 0).toNat
            if n ≤ rcap then
              (readAll fd r n).bind fun (got, r) =>
                if got = n then .done (n, r) else .done (-1, r)
            else .done (-1, r)

/-- The length of the answer, or a failure, and the buffer. -/
def exchangeTcp (server : BitVec 32) (q r : List Byte) (rcap : ℕ) (timeout : ℤ × ℤ) :
    Prog Call Answer (ℤ × List Byte) :=
  .call .socket fun a =>
    let fd := a.toInt
    if fd < 0 then .done (-1, r)
    else .call (.setsockopt fd .rcvTimeo timeout) fun _ =>
      .call (.setsockopt fd .sndTimeo timeout) fun _ =>
        (exchangeOn fd server q r rcap).bind fun (got, r) =>
          .call (.close fd) fun _ => .done (got, r)

/-- What `main` does with a UDP answer of `len` bytes in the buffer `r`: the length and the buffer
that it goes on with. -/
def retry (server : BitVec 32) (q r : List Byte) (len : ℤ) (timeout : ℤ × ℤ) :
    Prog Call Answer (ℤ × List Byte) :=
  if 12 ≤ len ∧ r.getD 2 0 &&& 0x02 ≠ 0 then
    (exchangeTcp server q r r.length timeout).bind fun (tl, r) =>
      .done (if 12 ≤ tl then tl else len, r)
  else .done (len, r)

/-! ## What is received -/

/-- The bytes that a call stores. -/
def storedBy (step : Call × Answer) : List Byte :=
  match step.1 with
  | .recv _ n => step.2.stored n
  | _ => []

/-- The bytes that the calls of a trace store, one after another. -/
def received (trace : List (Call × Answer)) : List Byte := trace.flatMap storedBy

/-- What two runs of calls store, one after the other. -/
theorem received_append (trace trace' : List (Call × Answer)) :
    received (trace ++ trace') = received trace ++ received trace' := List.flatMap_append

/-- What the first call stores comes first. -/
theorem received_cons (step : Call × Answer) (trace : List (Call × Answer)) :
    received (step :: trace) = storedBy step ++ received trace := List.flatMap_cons

/-- A call stores no more than it is asked for. -/
theorem length_stored_le (n : ℕ) (a : Answer) : (a.stored n).length ≤ n := by
  cases a with
  | value v => exact Nat.zero_le _
  | bytes data => exact List.length_take_le n data

/-- The bytes received go into the buffer one after another, until all are there or a call brings
none. -/
theorem readAllFrom_runs {fd : ℤ} {n fuel got : ℕ} {buf buf' : List Byte} {res : ℤ}
    {trace : List (Call × Answer)} (hfuel : n ≤ got + fuel) (hgot : got ≤ n)
    (hn : n ≤ buf.length) (h : (readAllFrom fd n fuel buf got).Runs trace (res, buf')) :
    buf' = overwrite buf got (received trace) ∧
      (res = n ∧ (received trace).length = n - got ∨
        res = -1 ∧ (received trace).length < n - got) := by
  -- Each call that stores something brings the end nearer, so the fuel is enough.
  induction fuel generalizing buf got trace with
  | zero =>
    obtain ⟨rfl, heq⟩ := Prog.runs_done.1 h
    obtain ⟨rfl, rfl⟩ := Prod.mk.inj heq
    exact ⟨(overwrite_nil _ _).symm, Or.inl ⟨by omega, by simp [received]; omega⟩⟩
  | succ fuel ih =>
    unfold readAllFrom at h
    split at h
    · next hlt =>
      obtain ⟨a, rest, rfl, hnext⟩ := Prog.runs_call.1 h
      have hstored : storedBy (.recv fd (n - got), a) = a.stored (n - got) := rfl
      have hle := length_stored_le (n - got) a
      rw [received_cons, hstored]
      dsimp only at hnext
      split at hnext
      · -- Nothing stored: the connection has ended.
        next hnil =>
        obtain ⟨rfl, heq⟩ := Prog.runs_done.1 hnext
        obtain ⟨rfl, rfl⟩ := Prod.mk.inj heq
        rw [hnil]
        exact ⟨(overwrite_nil _ _).symm, Or.inr ⟨rfl, by simp [received]; omega⟩⟩
      · next hne =>
        have hpos := List.length_pos_of_ne_nil hne
        have hbuf : (overwrite buf got (a.stored (n - got))).length = buf.length :=
          length_overwrite (by omega)
        obtain ⟨hbuf', hres⟩ := ih (by omega) (by omega) (by omega) hnext
        rw [hbuf', overwrite_append (by omega), List.length_append]
        refine ⟨rfl, ?_⟩
        omega
    · next hge =>
      obtain ⟨rfl, heq⟩ := Prog.runs_done.1 h
      obtain ⟨rfl, rfl⟩ := Prod.mk.inj heq
      exact ⟨(overwrite_nil _ _).symm, Or.inl ⟨by omega, by simp [received]; omega⟩⟩

/-- The buffer begins with what was received, which is all of it or too little. -/
theorem readAll_runs {fd : ℤ} {n : ℕ} {buf buf' : List Byte} {res : ℤ}
    {trace : List (Call × Answer)} (hn : n ≤ buf.length)
    (h : (readAll fd buf n).Runs trace (res, buf')) :
    buf' = overwrite buf 0 (received trace) ∧
      (res = n ∧ (received trace).length = n ∨ res = -1 ∧ (received trace).length < n) :=
  readAllFrom_runs (by omega) (Nat.zero_le n) hn h

/-- The bytes of the answer that arrived, without those of its length. -/
def body (trace : List (Call × Answer)) : List Byte := (received trace).drop 2

/-- A call that stores nothing. -/
theorem body_cons {step : Call × Answer} (h : storedBy step = []) (trace : List (Call × Answer)) :
    body (step :: trace) = body trace := by
  unfold body
  rw [received_cons, h, List.nil_append]

/-- The buffer begins with what was received behind the length. -/
theorem exchangeOn_runs {fd : ℤ} {server : BitVec 32} {q r r' : List Byte} {rcap : ℕ} {tl : ℤ}
    {trace : List (Call × Answer)} (hcap : rcap ≤ r.length)
    (h : (exchangeOn fd server q r rcap).Runs trace (tl, r')) :
    r' = overwrite r 0 (body trace) := by
  have hfail : ∀ {trace}, (Prog.done (-1, r)).Runs trace (tl, r') →
      r' = overwrite r 0 (body trace) := by
    intro trace h
    obtain ⟨rfl, heq⟩ := Prog.runs_done.1 h
    rw [(Prod.mk.inj heq).2]
    exact (overwrite_nil _ _).symm
  unfold exchangeOn at h
  dsimp only at h
  obtain ⟨a, rest, rfl, hconnect⟩ := Prog.runs_call.1 h
  rw [body_cons rfl]
  split at hconnect
  · exact hfail hconnect
  obtain ⟨a, rest, rfl, hlength⟩ := Prog.runs_call.1 hconnect
  rw [body_cons rfl]
  split at hlength
  · exact hfail hlength
  obtain ⟨a, rest, rfl, hquery⟩ := Prog.runs_call.1 hlength
  rw [body_cons rfl]
  split at hquery
  · exact hfail hquery
  obtain ⟨first, last, ⟨got, len⟩, rfl, hread, hnext⟩ := Prog.runs_bind.1 hquery
  obtain ⟨-, hgot⟩ := readAll_runs (by simp) hread
  dsimp only at hnext
  split at hnext
  · next hshort =>
    -- Not even the length has arrived.
    obtain ⟨rfl, heq⟩ := Prog.runs_done.1 hnext
    have hnone : body (first ++ []) = [] := by
      unfold body
      rw [List.append_nil]
      exact List.drop_eq_nil_of_le (by omega)
    rw [hnone, (Prod.mk.inj heq).2]
    exact (overwrite_nil _ _).symm
  · next hwhole =>
    have hbody : body (first ++ last) = received last := by
      unfold body
      rw [received_append, List.drop_left' (by omega)]
    rw [hbody]
    split at hnext
    · next hfits =>
      obtain ⟨first', last', ⟨got', r''⟩, rfl, hread', hdone⟩ := Prog.runs_bind.1 hnext
      obtain ⟨hbuf, -⟩ := readAll_runs (Nat.le_trans hfits hcap) hread'
      dsimp only at hdone
      have hlast : last' = [] ∧ r' = r'' := by
        split at hdone
        · obtain ⟨hnil, heq⟩ := Prog.runs_done.1 hdone
          exact ⟨hnil, (Prod.mk.inj heq).2⟩
        · obtain ⟨hnil, heq⟩ := Prog.runs_done.1 hdone
          exact ⟨hnil, (Prod.mk.inj heq).2⟩
      rw [hlast.1, List.append_nil, hlast.2, hbuf]
    · obtain ⟨rfl, heq⟩ := Prog.runs_done.1 hnext
      rw [(Prod.mk.inj heq).2]
      exact (overwrite_nil _ _).symm

/-- The buffer begins with what was received behind the length. -/
theorem exchangeTcp_runs {server : BitVec 32} {q r r' : List Byte} {rcap : ℕ} {timeout : ℤ × ℤ}
    {tl : ℤ} {trace : List (Call × Answer)} (hcap : rcap ≤ r.length)
    (h : (exchangeTcp server q r rcap timeout).Runs trace (tl, r')) :
    r' = overwrite r 0 (body trace) := by
  unfold exchangeTcp at h
  obtain ⟨a, rest, rfl, hsocket⟩ := Prog.runs_call.1 h
  rw [body_cons rfl]
  dsimp only at hsocket
  split at hsocket
  · obtain ⟨rfl, heq⟩ := Prog.runs_done.1 hsocket
    rw [(Prod.mk.inj heq).2]
    exact (overwrite_nil _ _).symm
  obtain ⟨a', rest, rfl, hrcv⟩ := Prog.runs_call.1 hsocket
  obtain ⟨a'', rest, rfl, hsnd⟩ := Prog.runs_call.1 hrcv
  rw [body_cons rfl, body_cons rfl]
  obtain ⟨first, last, ⟨got, r''⟩, rfl, hexchange, hnext⟩ := Prog.runs_bind.1 hsnd
  obtain ⟨c, rest, rfl, hclose⟩ := Prog.runs_call.1 hnext
  obtain ⟨rfl, heq⟩ := Prog.runs_done.1 hclose
  have hbody : body (first ++ [(Call.close a.toInt, c)]) = body first := by
    unfold body
    rw [received_append]
    exact congrArg (List.drop 2) (List.append_nil _)
  rw [hbody, (Prod.mk.inj heq).2]
  exact exchangeOn_runs hcap hexchange

/-- When the retry of a truncated answer fails, after whatever calls, `main` goes on with the UDP
answer's length; and the buffer still begins with the UDP answer exactly when the bytes that arrived
over TCP, as far as they lie in its place, are those of the UDP answer. -/
theorem retry_keeps_iff {server : BitVec 32} {q r r' : List Byte} {len : ℕ} {timeout : ℤ × ℤ}
    {tl : ℤ} {trace : List (Call × Answer)} (hlen : 12 ≤ len) (hr : len ≤ r.length)
    (htc : r.getD 2 0 &&& 0x02 ≠ 0)
    (hrun : (exchangeTcp server q r r.length timeout).Runs trace (tl, r')) (hfail : tl < 12) :
    (retry server q r len timeout).Runs trace (len, r') ∧
      (r'.take len = r.take len ↔ (body trace).take len <+: r) := by
  constructor
  · unfold retry
    rw [if_pos ⟨by omega, htc⟩]
    refine Prog.runs_bind.2 ⟨trace, [], (tl, r'), (List.append_nil trace).symm, hrun, ?_⟩
    dsimp only
    rw [if_neg (by omega)]
    exact .done _
  · rw [exchangeTcp_runs (Nat.le_refl _) hrun]
    exact take_overwrite_zero_iff len hr

/-- A query for the addresses of the root. -/
def rootQuery : List Byte := [0x12, 0x34, 0x01, 0, 0, 1, 0, 0, 0, 0, 0, 0, 0, 0, 1, 0, 1]

/-- A truncated answer to it, of 17 bytes, without an error. -/
def truncatedAnswer : List Byte := [0x12, 0x34, 0x83, 0x80, 0, 1, 0, 0, 0, 0, 0, 0, 0, 0, 1, 0, 1]

/-- A connection that ends after the length and the first 4 bytes of an answer, its flags last. -/
def endingConnection (flags flags' : Byte) : List (Call × Answer) :=
  [(.connect 3 0x0A000203, .value 0), (.send 3 [0, 17], .value 2), (.send 3 rootQuery, .value 17),
    (.recv 3 2, .bytes [0, 16]), (.recv 3 16, .bytes [0x12, 0x34, flags, flags']),
    (.recv 3 12, .value 0)]

/-- It leaves those bytes at the start of the buffer. -/
theorem endingConnection_runs {r : List Byte} (h : 16 ≤ r.length) (flags flags' : Byte) :
    (exchangeOn 3 0x0A000203 rootQuery r r.length).Runs (endingConnection flags flags')
      (-1, overwrite r 0 [0x12, 0x34, flags, flags']) := by
  have hread : (readAll 3 [0, 17] 2).Runs [(.recv 3 2, .bytes [0, 16])] (2, [0, 16]) :=
    .call _ _ (.done _)
  have hread' : (readAll 3 r 16).Runs
      [(.recv 3 16, .bytes [0x12, 0x34, flags, flags']), (.recv 3 12, .value 0)]
      (-1, overwrite r 0 [0x12, 0x34, flags, flags']) := .call _ _ (.call _ _ (.done _))
  refine .call _ _ (.call _ _ (.call _ _ (Prog.runs_bind.2 ⟨_, _, _, rfl, hread, ?_⟩)))
  dsimp only
  rw [if_neg (by decide)]
  split
  · exact Prog.runs_bind.2 ⟨_, [], _, (List.append_nil _).symm, hread', .done _⟩
  · next hcap => exact absurd h hcap

/-- The socket that the connection is made of, opened and closed around it. -/
def endingRetry (flags flags' : Byte) : List (Call × Answer) :=
  (.socket, .value 3) :: (.setsockopt 3 .rcvTimeo (2, 0), .value 0) ::
    (.setsockopt 3 .sndTimeo (2, 0), .value 0) ::
    (endingConnection flags flags' ++ [(.close 3, .value 0)])

/-- The server sends four bytes of a longer answer and closes the connection. -/
theorem endingRetry_runs {r : List Byte} (h : 16 ≤ r.length) (flags flags' : Byte) :
    (exchangeTcp 0x0A000203 rootQuery r r.length (2, 0)).Runs (endingRetry flags flags')
      (-1, overwrite r 0 [0x12, 0x34, flags, flags']) :=
  .call _ _ (.call _ _ (.call _ _
    (Prog.runs_bind.2 ⟨_, _, _, rfl, endingConnection_runs h flags flags', .call _ _ (.done _)⟩)))

/-- The buffer of `main` with the truncated answer. -/
def truncatedBuffer : List Byte := truncatedAnswer ++ List.replicate (65535 - 17) 0

/-- The buffer has its full size. -/
theorem length_truncatedBuffer : truncatedBuffer.length = 65535 := by
  rw [truncatedBuffer, List.length_append, List.length_replicate]
  rfl

/-- After the connection ended, the buffer has the error of the TCP answer (3, no such name) in the
place of the UDP answer's. -/
theorem retry_mixes :
    let r := truncatedAnswer ++ List.replicate (65535 - 17) 0
    ∃ trace r', (exchangeTcp 0x0A000203 rootQuery r r.length (2, 0)).Runs trace (-1, r') ∧
      (retry 0x0A000203 rootQuery r 17 (2, 0)).Runs trace (17, r') ∧
      r'.getD 3 0 = 0x83 ∧ r'.take 17 ≠ r.take 17 := by
  have hlen : 16 ≤ truncatedBuffer.length := by
    rw [length_truncatedBuffer]
    decide
  have hrun := endingRetry_runs hlen 0x81 0x83
  refine ⟨_, _, hrun, ?_, rfl, fun h => ?_⟩
  · unfold retry
    rw [if_pos ⟨by decide, by decide⟩]
    exact Prog.runs_bind.2 ⟨_, [], _, (List.append_nil _).symm, hrun, .done _⟩
  · exact absurd (congrArg (fun l => l.getD 3 0) h) (by decide)

/-- When the 4 bytes are those of the UDP answer, nothing of it is lost. -/
theorem retry_keeps_iff_cutOff :
    ∃ trace r', body trace = [0x12, 0x34, 0x83, 0x80] ∧
      (retry 0x0A000203 rootQuery truncatedBuffer (17 : ℕ) (2, 0)).Runs trace ((17 : ℕ), r') ∧
      r'.take 17 = truncatedBuffer.take 17 := by
  have hlen := length_truncatedBuffer
  have hbody : body (endingRetry 0x83 0x80) = [0x12, 0x34, 0x83, 0x80] := by decide
  obtain ⟨hretry, hkeeps⟩ := retry_keeps_iff (show 12 ≤ 17 by decide) (by omega) (by decide)
    (endingRetry_runs (r := truncatedBuffer) (by omega) 0x83 0x80) (by decide)
  refine ⟨_, _, hbody, hretry, hkeeps.2 ?_⟩
  rw [hbody]
  exact ⟨truncatedAnswer.drop 4 ++ List.replicate (65535 - 17) 0, rfl⟩

end IUserApps.NsLookup
