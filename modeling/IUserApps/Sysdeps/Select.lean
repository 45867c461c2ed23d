import IUserApps.Sysdeps.Files

/-!
# Waiting for several fds

`Pselect` with the bits of its sets, and what it reports of the kernel's poll. The first 64 fds of
the read and the write set are polled (`polled`). Of what the kernel reports `Pselect` passes on an
input and an output alone, to whichever set there is, and it counts the fds and not the bits;
`selects_iff` is the exact condition under which that is what a select is to report. The other
modules use `sysPselect` on sets of fds, which is the same (`pselect_selects`).
-/

namespace IUserApps.Sysdeps

open Interact

/-! ## Sets of fds -/

/-- The bytes `fds_bits`, of which there are 128. -/
abbrev FdSet := ℕ → Byte

/-- `FD_ISSET`; no fd is set in a set that is not there. -/
def fdIsSet (set : Option FdSet) (fd : ℕ) : Bool :=
  match set with
  | none => false
  | some bits => bits (fd >>> 3) &&& 1#8 <<< (fd &&& 7) ≠ 0#8

/-- `FD_ZERO`. -/
def fdClearAll (_ : FdSet) : FdSet := fun _ => 0#8

/-- `FD_SET`. -/
def fdSet (fd : ℕ) (bits : FdSet) : FdSet :=
  Function.update bits (fd >>> 3) (bits (fd >>> 3) ||| 1#8 <<< (fd &&& 7))

/-- The number of fds that a set has room for. -/
def fdSetSize : ℕ := 1024

/-- The number of bits set in a set. -/
def setBits (set : Option FdSet) : ℕ := ((List.range fdSetSize).filter (fdIsSet set)).length

/-- What `Pselect` leaves in the sets, and the number of events. -/
structure Selected where
  reads : Option FdSet
  writes : Option FdSet
  excepts : Option FdSet
  total : ℕ

/-! ## The call -/

/-- The events that are polled for an fd. -/
def polledEvents (reads writes : Option FdSet) (fd : ℕ) : ℕ :=
  (if fdIsSet reads fd then kPollIn else 0) ||| (if fdIsSet writes fd then kPollOut else 0)

/-- Stores the events of the polled fds from place `i` on, and counts those with one. -/
def storeHits (b : Block) : List ℕ → ℕ → Option FdSet → Option FdSet → ℕ →
    Option FdSet × Option FdSet × ℕ
  | [], _, reads, writes, total => (reads, writes, total)
  | fd :: fds, i, reads, writes, total =>
    let inHit := reads.isSome && reventsAt b i &&& kPollIn ≠ 0
    let outHit := writes.isSome && reventsAt b i &&& kPollOut ≠ 0
    storeHits b fds (i + 1) (if inHit then reads.map (fdSet fd) else reads)
      (if outHit then writes.map (fdSet fd) else writes)
      (if inHit || outHit then total + 1 else total)

/-- `Pselect` on sets of bits. -/
def pselect (numFds : ℕ) (reads writes excepts : Option FdSet) (timeout : Option (ℤ × ℤ)) :
    Sys Selected := do
  let s ← Act.get
  match selectFds s.fdTable (polledEvents reads writes) numFds 0 [] with
  | .error e => Act.throw e
  | .ok found =>
    let cleared : Selected :=
      { reads := reads.map fdClearAll
        writes := writes.map fdClearAll
        excepts := excepts.map fdClearAll
        total := 0 }
    if found = [] then pure cleared
    else
      let events := found.map fun p => (polledEvents reads writes p.1 : ℤ)
      let ready ← syscall (kcall .poll (found.map (·.2)) (timeoutMs timeout :: events))
      let (reads, writes, total) :=
        storeHits ready.block (found.map (·.1)) 0 cleared.reads cleared.writes 0
      pure { cleared with reads := reads, writes := writes, total := total }

/-! ## What is to be reported -/

/-- The fds that are polled. -/
def polled (numFds : ℕ) (reads writes : Option FdSet) : List ℕ :=
  ((List.range numFds).filter fun fd => fdIsSet reads fd || fdIsSet writes fd).take 64

/-- What there is to report of every fd agrees with what the kernel has reported of the polled ones.
-/
def AgreesWith (reports : ℕ → ℕ) (fds : List ℕ) (trace : List (KCall × Answer)) : Prop :=
  ∀ step ∈ trace, ∀ i fd, fds[i]? = some fd → reventsAt step.2.block i = reports fd

/-- An fd below `numFds` is in a set. -/
def Requested (numFds : ℕ) (set : Option FdSet) (fd : ℕ) : Prop :=
  fd < numFds ∧ fdIsSet set fd = true

/-- What a select is to report: in the read set the requested fds with input, hang-up or error; in
the write set those with output or error; the number of bits set; and something, when there is no
timeout and a requested fd has an event. -/
structure Selects (numFds : ℕ) (reads writes excepts : Option FdSet) (timeout : Option (ℤ × ℤ))
    (reports : ℕ → ℕ) (out : Selected) : Prop where
  reads_iff : ∀ fd, fdIsSet out.reads fd = true ↔
    Requested numFds reads fd ∧ reports fd &&& (kPollIn ||| POLLHUP ||| POLLERR) ≠ 0
  writes_iff : ∀ fd, fdIsSet out.writes fd = true ↔
    Requested numFds writes fd ∧ reports fd &&& (kPollOut ||| POLLERR) ≠ 0
  total_eq : out.total = setBits out.reads + setBits out.writes + setBits out.excepts
  waits : timeout = none →
    (∃ fd, (Requested numFds reads fd ∨ Requested numFds writes fd ∨ Requested numFds excepts fd) ∧
      reports fd ≠ 0) → out.total ≠ 0

/-- An fd has an event, and there is a set for it. -/
def hit (set : Option FdSet) (event : ℕ) (reports : ℕ → ℕ) (fd : ℕ) : Bool :=
  set.isSome && reports fd &&& event ≠ 0

/-- An fd has an event that `Pselect` passes on. -/
def hasHit (reads writes : Option FdSet) (reports : ℕ → ℕ) (fd : ℕ) : Bool :=
  hit reads kPollIn reports fd || hit writes kPollOut reports fd

/-- The condition for that: of the fds that are not polled nothing is to be reported; a hang-up or
an error comes with the input or output that is asked for; no event comes that is not asked for,
while there is a set for it; no fd has both events; and with no timeout an event is passed on, or
there is none. -/
structure SelectsRight (numFds : ℕ) (reads writes excepts : Option FdSet)
    (timeout : Option (ℤ × ℤ)) (reports : ℕ → ℕ) : Prop where
  unpolled : ∀ fd, fd ∉ polled numFds reads writes →
    (Requested numFds reads fd → reports fd &&& (kPollIn ||| POLLHUP ||| POLLERR) = 0) ∧
      (Requested numFds writes fd → reports fd &&& (kPollOut ||| POLLERR) = 0)
  hup : ∀ fd ∈ polled numFds reads writes, fdIsSet reads fd = true →
    reports fd &&& (POLLHUP ||| POLLERR) ≠ 0 → reports fd &&& kPollIn ≠ 0
  err : ∀ fd ∈ polled numFds reads writes, fdIsSet writes fd = true →
    reports fd &&& POLLERR ≠ 0 → reports fd &&& kPollOut ≠ 0
  asked : ∀ fd ∈ polled numFds reads writes,
    (reads.isSome → reports fd &&& kPollIn ≠ 0 → fdIsSet reads fd = true) ∧
      (writes.isSome → reports fd &&& kPollOut ≠ 0 → fdIsSet writes fd = true)
  once : ∀ fd ∈ polled numFds reads writes, reads.isSome → writes.isSome →
    reports fd &&& kPollIn = 0 ∨ reports fd &&& kPollOut = 0
  waits : timeout = none → (∃ fd ∈ polled numFds reads writes, hasHit reads writes reports fd) ∨
    ∀ fd, (Requested numFds reads fd ∨ Requested numFds writes fd ∨ Requested numFds excepts fd) →
      reports fd = 0

/-! ## Bits -/

section
variable {reads writes excepts set : Option FdSet} {fd k : ℕ} {reports : ℕ → ℕ}

/-- The bit of an fd. -/
theorem fdIsSet_some (bits : FdSet) (fd : ℕ) :
    fdIsSet (some bits) fd = (bits (fd / 8)).getLsbD (fd % 8) := by
  have hbit : ∀ b : Byte, ∀ j < 8, decide (b &&& 1#8 <<< j ≠ 0#8) = b.getLsbD j := by decide +kernel
  have hindex : fd >>> 3 = fd / 8 := Nat.shiftRight_eq_div_pow fd 3
  have hplace : fd &&& 7 = fd % 8 := Nat.and_two_pow_sub_one_eq_mod fd 3
  show decide (bits (fd >>> 3) &&& 1#8 <<< (fd &&& 7) ≠ 0#8) = _
  rw [hindex, hplace]
  exact hbit _ _ (Nat.mod_lt fd (by decide))

/-- A bit is set beside the others. -/
theorem fdIsSet_fdSet (bits : FdSet) (fd k : ℕ) :
    fdIsSet (some (fdSet fd bits)) k = (decide (k = fd) || fdIsSet (some bits) k) := by
  have hindex : fd >>> 3 = fd / 8 := Nat.shiftRight_eq_div_pow fd 3
  have hplace : fd &&& 7 = fd % 8 := Nat.and_two_pow_sub_one_eq_mod fd 3
  have hone : ∀ j < 8, ∀ j' < 8, (1#8 <<< j).getLsbD j' = decide (j' = j) := by decide
  rw [fdIsSet_some, fdIsSet_some, fdSet, hindex, hplace]
  by_cases hbyte : k / 8 = fd / 8
  · rw [hbyte, Function.update_self, BitVec.getLsbD_or,
      hone _ (Nat.mod_lt fd (by decide)) _ (Nat.mod_lt k (by decide)), Bool.or_comm]
    have hiff : k % 8 = fd % 8 ↔ k = fd := by omega
    simp only [hiff]
  · rw [Function.update_of_ne hbyte]
    have hne : k ≠ fd := by
      rintro rfl
      exact hbyte rfl
    simp [hne]

/-- No fd is set in a set that was cleared. -/
theorem fdIsSet_fdClearAll (set : Option FdSet) (fd : ℕ) :
    fdIsSet (set.map fdClearAll) fd = false := by
  cases set with
  | none => rfl
  | some bits =>
    rw [Option.map_some, fdIsSet_some]
    exact BitVec.getLsbD_zero

/-- A set with a bit added under a condition. -/
theorem fdIsSet_storeHit (set : Option FdSet) (p : Bool) (fd k : ℕ) :
    fdIsSet (if set.isSome && p then set.map (fdSet fd) else set) k =
      (fdIsSet set k || (set.isSome && p && decide (k = fd))) := by
  cases set with
  | none => rfl
  | some bits =>
    cases p with
    | false => simp
    | true => simp [fdIsSet_fdSet, Bool.or_comm]

/-- Storing an fd neither adds nor removes a set. -/
theorem isSome_storeHit (set : Option FdSet) (p : Bool) (fd : ℕ) :
    (if set.isSome && p then set.map (fdSet fd) else set).isSome = set.isSome := by
  split <;> simp

/-- An fd is hit in a list if it is the first that is, or one of the others. -/
theorem hit_cons (set : Option FdSet) (event fd k : ℕ) (fds : List ℕ) :
    ((hit set event reports fd && decide (k = fd)) ||
        (decide (k ∈ fds) && hit set event reports k)) =
      (decide (k ∈ fd :: fds) && hit set event reports k) := by
  by_cases hk : k = fd
  · rw [hk]
    cases hit set event reports fd <;> simp
  · simp [hk]

/-- Only whether there is a set matters. -/
theorem hit_of_isSome {set' : Option FdSet} (h : set'.isSome = set.isSome) (event : ℕ) :
    hit set' event reports = hit set event reports := by
  funext fd
  rw [hit, h, hit]

/-- The bits stored and the fds counted are those with an event that is reported. -/
theorem storeHits_spec {b : Block} {fds : List ℕ} {i total : ℕ}
    (h : ∀ k fd, fds[k]? = some fd → reventsAt b (i + k) = reports fd) :
    (∀ k, fdIsSet (storeHits b fds i reads writes total).1 k = (fdIsSet reads k ||
        (decide (k ∈ fds) && hit reads kPollIn reports k))) ∧
      (∀ k, fdIsSet (storeHits b fds i reads writes total).2.1 k = (fdIsSet writes k ||
        (decide (k ∈ fds) && hit writes kPollOut reports k))) ∧
      (storeHits b fds i reads writes total).2.2 =
        total + (fds.filter (hasHit reads writes reports)).length := by
  induction fds generalizing i reads writes total with
  | nil => simp [storeHits]
  | cons fd fds ih =>
    -- The rest is stored into the sets that the first has been stored to, one place further on.
    have hfirst : reventsAt b i = reports fd := h 0 fd rfl
    have hrest : ∀ k fd', fds[k]? = some fd' → reventsAt b (i + 1 + k) = reports fd' := by
      intro k fd' hk
      rw [Nat.add_right_comm]
      exact h (k + 1) fd' hk
    unfold storeHits
    dsimp only
    rw [hfirst]
    obtain ⟨hreads, hwrites, htotal⟩ := ih hrest
    rw [hit_of_isSome (isSome_storeHit reads _ fd)] at hreads
    rw [hit_of_isSome (isSome_storeHit writes _ fd)] at hwrites
    refine ⟨fun k => ?_, fun k => ?_, ?_⟩
    · rw [hreads, fdIsSet_storeHit, Bool.or_assoc]
      exact congrArg _ (hit_cons reads kPollIn fd k fds)
    · rw [hwrites, fdIsSet_storeHit, Bool.or_assoc]
      exact congrArg _ (hit_cons writes kPollOut fd k fds)
    · rw [htotal, List.filter_cons]
      unfold hasHit
      rw [hit_of_isSome (isSome_storeHit reads _ fd), hit_of_isSome (isSome_storeHit writes _ fd)]
      show (if hasHit reads writes reports fd = true then total + 1 else total) + _ =
        total + (if hasHit reads writes reports fd = true then _ else _ : List ℕ).length
      split
      · rw [List.length_cons]
        omega
      · rfl

end

/-! ## The polled fds -/

/-- The search finds the first 64 fds with an event to poll. -/
theorem selectFds_ok {table : FdTable} {wanted : ℕ → ℕ} {n fd : ℕ} {found found' : List (ℕ × ℤ)}
    (hlen : found.length ≤ 64) (h : selectFds table wanted n fd found = .ok found') :
    found'.map (·.1) =
      (found.map (·.1) ++ (List.range' fd n).filter fun k => wanted k ≠ 0).take 64 := by
  induction n generalizing fd found with
  | zero =>
    obtain rfl := Except.ok.inj h
    rw [List.range'_zero, List.filter_nil, List.append_nil, List.take_of_length_le]
    rwa [List.length_map]
  | succ n ih =>
    rw [selectFds] at h
    rw [List.range'_succ]
    split at h
    · next hfull =>
      obtain rfl := Except.ok.inj h
      rw [List.take_append_of_le_length (by rwa [List.length_map]), List.take_of_length_le]
      rwa [List.length_map]
    · next hroom =>
      split at h
      · next hnone =>
        rw [ih hlen h, List.filter_cons_of_neg (by simp [hnone])]
      · next hwanted =>
        dsimp only at h
        split at h
        · exact nomatch h
        · rw [ih (by rw [List.length_append, List.length_singleton]; omega) h,
            List.filter_cons_of_pos (by simpa using hwanted), List.map_append, List.append_assoc]
          rfl

section
variable {numFds : ℕ} {reads writes excepts : Option FdSet} {timeout : Option (ℤ × ℤ)}
  {reports : ℕ → ℕ} {s s' : Libc} {trace : List (KCall × Answer)} {out : Selected}

/-- A polled fd is below the bound and set in one of the two sets. -/
theorem mem_polled {fd : ℕ} (h : fd ∈ polled numFds reads writes) :
    fd < numFds ∧ (fdIsSet reads fd || fdIsSet writes fd) = true := by
  obtain ⟨hmem, hset⟩ := List.mem_filter.1 (List.mem_of_mem_take h)
  exact ⟨List.mem_range.1 hmem, hset⟩

/-- No fd is polled twice. -/
theorem nodup_polled (numFds : ℕ) (reads writes : Option FdSet) :
    (polled numFds reads writes).Nodup :=
  (List.nodup_range.filter _).sublist (List.take_sublist _ _)

/-- There is an event to wait for exactly for the fds of the two sets. -/
theorem polledEvents_ne_zero (reads writes : Option FdSet) (fd : ℕ) :
    decide (polledEvents reads writes fd ≠ 0) = (fdIsSet reads fd || fdIsSet writes fd) := by
  unfold polledEvents
  cases fdIsSet reads fd <;> cases fdIsSet writes fd <;> rfl

/-- The fds that are looked up are the polled ones. -/
theorem map_found {table : FdTable} {found : List (ℕ × ℤ)}
    (h : selectFds table (polledEvents reads writes) numFds 0 [] = .ok found) :
    found.map (·.1) = polled numFds reads writes := by
  rw [selectFds_ok (show [].length ≤ 64 by decide) h, polled, List.range_eq_range']
  simp only [polledEvents_ne_zero]
  rfl

/-- What a select that succeeds leaves in the sets: of the polled fds those with an event that there
is a set for. -/
theorem runs_pselect
    (h : Act.Runs (pselect numFds reads writes excepts timeout) s trace (.ok out) s')
    (hreports : AgreesWith reports (polled numFds reads writes) trace) :
    (∀ fd, fdIsSet out.reads fd =
        (decide (fd ∈ polled numFds reads writes) && hit reads kPollIn reports fd)) ∧
      (∀ fd, fdIsSet out.writes fd =
        (decide (fd ∈ polled numFds reads writes) && hit writes kPollOut reports fd)) ∧
      (∀ fd, fdIsSet out.excepts fd = false) ∧
      out.total = ((polled numFds reads writes).filter (hasHit reads writes reports)).length := by
  unfold pselect at h
  rw [Act.runs_get_bind] at h
  cases hfound : selectFds s.fdTable (polledEvents reads writes) numFds 0 [] with
  | error e =>
    rw [hfound] at h
    exact nomatch (Act.runs_throw.1 h).2.1
  | ok found =>
    rw [hfound] at h
    dsimp only at h
    have hpolled := map_found hfound
    split at h
    · next hnil =>
      obtain ⟨-, hr, -⟩ := Act.runs_pure.1 h
      obtain rfl := Except.ok.inj hr
      rw [hnil, List.map_nil] at hpolled
      rw [← hpolled]
      refine ⟨fun fd => ?_, fun fd => ?_, fun fd => fdIsSet_fdClearAll excepts fd, rfl⟩
      · simp [fdIsSet_fdClearAll]
      · simp [fdIsSet_fdClearAll]
    · obtain ⟨a, rest, rfl, ⟨-, -, hr, -⟩ | ⟨-, h'⟩⟩ := runs_syscall_bind.1 h
      · exact nomatch hr
      · obtain ⟨-, hr, -⟩ := Act.runs_pure.1 h'
        obtain rfl := Except.ok.inj hr
        have hstore : ∀ k fd, (polled numFds reads writes)[k]? = some fd →
            reventsAt a.block (0 + k) = reports fd := by
          intro k fd hk
          rw [Nat.zero_add]
          exact hreports _ List.mem_cons_self k fd hk
        obtain ⟨hreads, hwrites, htotal⟩ :=
          @storeHits_spec (reads.map fdClearAll) (writes.map fdClearAll) reports _ _ _ 0 hstore
        -- The sets stored to have been cleared, but are there as before.
        have hsome : ∀ (set : Option FdSet) (event : ℕ),
            hit (set.map fdClearAll) event reports = hit set event reports :=
          fun set => hit_of_isSome Option.isSome_map
        rw [← hpolled] at hreads hwrites htotal ⊢
        refine ⟨fun fd => ?_, fun fd => ?_, fun fd => fdIsSet_fdClearAll excepts fd, ?_⟩
        · rw [hreads, fdIsSet_fdClearAll, hsome, Bool.false_or]
        · rw [hwrites, fdIsSet_fdClearAll, hsome, Bool.false_or]
        · rw [htotal, Nat.zero_add]
          unfold hasHit
          rw [hsome, hsome]

/-! ## The sets as predicates -/

/-- A set of bits as a set of fds. -/
def setOf (set : Option FdSet) : Option (ℕ → Bool) := set.map fun bits fd => fdIsSet (some bits) fd

/-- As predicates the sets ask for the same events. -/
theorem wantedEvents_setOf (reads writes : Option FdSet) :
    wantedEvents (setOf reads) (setOf writes) = polledEvents reads writes := by
  funext fd
  cases reads <;> cases writes <;> rfl

/-- The fds of a poll with an event are those that the kernel reports it of. -/
theorem mem_hits {set : Option FdSet} {event : ℕ} {found : List (ℕ × ℤ)} {b : Block}
    (h : ∀ i fd, (found.map (·.1))[i]? = some fd → reventsAt b i = reports fd) (fd : ℕ) :
    fd ∈ hits (setOf set) event found b ↔
      fd ∈ found.map (·.1) ∧ hit set event reports fd = true := by
  have hsome : (setOf set).isNone = !set.isSome := by cases set <;> rfl
  unfold hits hit
  rw [hsome]
  cases set.isSome with
  | false => simp
  | true =>
    simp only [Bool.not_true, Bool.false_eq_true, if_false, Bool.true_and, decide_eq_true_eq]
    constructor
    · -- A hit has a place among the polled, whose answer is the kernel's for that fd.
      intro hmem
      obtain ⟨p, hp, rfl⟩ := List.mem_map.1 hmem
      obtain ⟨hzip, hevent⟩ := List.mem_filter.1 hp
      obtain ⟨i, hi⟩ := List.mem_iff_getElem?.1 hzip
      obtain ⟨hfound, hrange⟩ := List.getElem?_zip_eq_some.1 hi
      obtain ⟨hlt, hplace⟩ := List.getElem?_eq_some_iff.1 hrange
      rw [List.getElem_range] at hplace
      have hfd : (found.map (·.1))[i]? = some p.1.1 := by rw [List.getElem?_map, hfound]; rfl
      refine ⟨List.mem_iff_getElem?.2 ⟨i, hfd⟩, ?_⟩
      rw [← hplace, h i _ hfd] at hevent
      exact of_decide_eq_true hevent
    · rintro ⟨hmem, hevent⟩
      obtain ⟨i, hi⟩ := List.mem_iff_getElem?.1 hmem
      rw [List.getElem?_map] at hi
      obtain ⟨p, hp, rfl⟩ := Option.map_eq_some_iff.1 hi
      have hlt := (List.getElem?_eq_some_iff.1 hp).1
      refine List.mem_map.2 ⟨(p, i), List.mem_filter.2 ⟨?_, ?_⟩, rfl⟩
      · refine List.mem_iff_getElem?.2 ⟨i, List.getElem?_zip_eq_some.2 ⟨hp, ?_⟩⟩
        rw [List.getElem?_range hlt]
      · rw [decide_eq_true_eq, h i p.1 (by rw [List.getElem?_map, hp]; rfl)]
        exact hevent

/-- On bits a select does what `sysPselect` does on the sets of fds. -/
theorem pselect_selects
    (h : Act.Runs (pselect numFds reads writes excepts timeout) s trace (.ok out) s') :
    ∃ readable writable, Act.Runs (sysPselect numFds (setOf reads) (setOf writes) timeout) s trace
        (.ok (readable, writable, out.total)) s' ∧
      (∀ fd, fdIsSet out.reads fd = true ↔ fd ∈ readable) ∧
      ∀ fd, fdIsSet out.writes fd = true ↔ fd ∈ writable := by
  have hrun := h
  unfold pselect at h
  rw [Act.runs_get_bind] at h
  unfold sysPselect
  simp only [Act.runs_get_bind, wantedEvents_setOf]
  cases hfound : selectFds s.fdTable (polledEvents reads writes) numFds 0 [] with
  | error e =>
    rw [hfound] at h
    obtain ⟨-, habs, -⟩ := Act.runs_throw.1 h
    cases habs
  | ok found =>
    rw [hfound] at h
    dsimp only at h ⊢
    split at h
    · next hnil =>
      obtain ⟨rfl, hr, rfl⟩ := Act.runs_pure.1 h
      obtain rfl := Except.ok.inj hr
      rw [if_pos hnil]
      exact ⟨[], [], Act.runs_pure.2 ⟨rfl, rfl, rfl⟩, by simp [fdIsSet_fdClearAll],
        by simp [fdIsSet_fdClearAll]⟩
    · next hnil =>
      have hpolled := map_found hfound
      have hnodup : (found.map (·.1)).Nodup := by
        rw [hpolled]
        exact nodup_polled numFds reads writes
      obtain ⟨a, rest, rfl, ⟨-, -, hr, -⟩ | ⟨ha, h'⟩⟩ := runs_syscall_bind.1 h
      · cases hr
      · obtain ⟨rfl, -, rfl⟩ := Act.runs_pure.1 h'
        -- What the kernel reports of an fd is what it reports at its place.
        let reports : ℕ → ℕ := fun fd => reventsAt a.block ((found.map (·.1)).idxOf fd)
        have hplace : ∀ i fd, (found.map (·.1))[i]? = some fd →
            reventsAt a.block i = reports fd := by
          intro i fd hi
          obtain ⟨hlt, rfl⟩ := List.getElem?_eq_some_iff.1 hi
          exact congrArg _ (hnodup.idxOf_getElem i hlt).symm
        have hreports : AgreesWith reports (polled numFds reads writes)
            [(kcall .poll (found.map (·.2))
              (timeoutMs timeout :: found.map fun p => (polledEvents reads writes p.1 : ℤ)), a)] := by
          intro step hstep i fd hi
          rw [List.mem_singleton.1 hstep]
          rw [← hpolled] at hi
          exact hplace i fd hi
        obtain ⟨hreads, hwrites, -, htotal⟩ := runs_pselect hrun hreports
        have hmemR : ∀ fd, fd ∈ hits (setOf reads) kPollIn found a.block ↔ _ := mem_hits hplace
        have hmemW : ∀ fd, fd ∈ hits (setOf writes) kPollOut found a.block ↔ _ := mem_hits hplace
        rw [if_neg hnil]
        refine ⟨hits (setOf reads) kPollIn found a.block,
          hits (setOf writes) kPollOut found a.block,
          runs_syscall_bind.2 ⟨a, [], rfl, Or.inr ⟨ha, Act.runs_pure.2 ⟨rfl, ?_, rfl⟩⟩⟩, ?_, ?_⟩
        · have hcount : ((found.map (·.1)).filter fun fd =>
              decide (fd ∈ hits (setOf reads) kPollIn found a.block) ||
                decide (fd ∈ hits (setOf writes) kPollOut found a.block)) =
              (polled numFds reads writes).filter (hasHit reads writes reports) := by
            rw [← hpolled]
            refine List.filter_congr fun fd hfd => ?_
            simp only [hmemR, hmemW, hfd, true_and, hasHit, Bool.decide_eq_true]
          rw [htotal, ← hcount]
        · intro fd
          rw [hreads, hmemR, Bool.and_eq_true, decide_eq_true_eq, hpolled]
        · intro fd
          rw [hwrites, hmemW, Bool.and_eq_true, decide_eq_true_eq, hpolled]

/-! ## Counting -/

/-- The elements with one property or the other, and those with both, are counted in each. -/
theorem length_filter_or {α : Type} (l : List α) (p q : α → Bool) :
    (l.filter fun x => p x || q x).length + (l.filter fun x => p x && q x).length =
      (l.filter p).length + (l.filter q).length := by
  induction l with
  | nil => rfl
  | cons x l ih =>
    simp only [List.filter_cons]
    cases p x <;> cases q x <;> simp only [Bool.or_true, Bool.or_false, Bool.and_true,
      Bool.and_false, Bool.false_eq_true, if_true, if_false, List.length_cons] <;> omega

/-- The bits of a set with some of the polled fds. -/
theorem setBits_eq {set : Option FdSet} {p : ℕ → Bool} (hnum : numFds ≤ fdSetSize)
    (h : ∀ fd, fdIsSet set fd = (decide (fd ∈ polled numFds reads writes) && p fd)) :
    setBits set = ((polled numFds reads writes).filter p).length := by
  refine List.Perm.length_eq ((List.perm_ext_iff_of_nodup (List.nodup_range.filter _)
    ((nodup_polled numFds reads writes).filter p)).2 fun fd => ?_)
  rw [List.mem_filter, List.mem_filter, h, Bool.and_eq_true, decide_eq_true_eq, List.mem_range]
  refine and_iff_right_of_imp fun hand => ?_
  have hlt := (mem_polled hand.1).1
  omega

/-- A bit of either of two numbers is a bit of one of them. -/
theorem and_or_ne_zero (n a b : ℕ) : n &&& (a ||| b) ≠ 0 ↔ n &&& a ≠ 0 ∨ n &&& b ≠ 0 := by
  rw [Nat.and_or_distrib_left, ne_eq, Nat.or_eq_zero_iff, not_and_or]

/-- An fd is hit if there is a set for it and the event is reported. -/
theorem hit_eq_true {set : Option FdSet} {event fd : ℕ} :
    hit set event reports fd = true ↔ set.isSome = true ∧ reports fd &&& event ≠ 0 := by
  unfold hit
  rw [Bool.and_eq_true, decide_eq_true_eq]

/-- An fd is set only in a set that is there. -/
theorem isSome_of_fdIsSet {set : Option FdSet} {fd : ℕ} (h : fdIsSet set fd = true) :
    set.isSome = true := by
  cases set with
  | none => exact nomatch h
  | some bits => rfl

/-- A set holds what is requested and has one of two kinds of events, when these are the polled fds
with the one event that is passed on. -/
theorem reported_iff {set set' : Option FdSet} {event : ℕ}
    (hout : ∀ fd, fdIsSet set' fd =
      (decide (fd ∈ polled numFds reads writes) && hit set event reports fd)) (more : ℕ) :
    (∀ fd, fdIsSet set' fd = true ↔
        Requested numFds set fd ∧ reports fd &&& (event ||| more) ≠ 0) ↔
      (∀ fd, fd ∉ polled numFds reads writes → Requested numFds set fd →
          reports fd &&& (event ||| more) = 0) ∧
        (∀ fd ∈ polled numFds reads writes, fdIsSet set fd = true → reports fd &&& more ≠ 0 →
          reports fd &&& event ≠ 0) ∧
        ∀ fd ∈ polled numFds reads writes, set.isSome → reports fd &&& event ≠ 0 →
          fdIsSet set fd = true := by
  have hbit : ∀ fd, fdIsSet set' fd = true ↔ fd ∈ polled numFds reads writes ∧
      set.isSome = true ∧ reports fd &&& event ≠ 0 := by
    intro fd
    rw [hout, Bool.and_eq_true, decide_eq_true_eq, hit_eq_true]
  simp only [hbit]
  constructor
  · intro h
    refine ⟨fun fd hnot hreq => ?_, fun fd hmem hset hmore => ?_, fun fd hmem hsome hevent => ?_⟩
    · -- A set that is right has no event of an fd that was not polled.
      by_contra hne
      exact hnot ((h fd).2 ⟨hreq, hne⟩).1
    · have hreq : Requested numFds set fd := ⟨(mem_polled hmem).1, hset⟩
      exact ((h fd).2 ⟨hreq, (and_or_ne_zero _ _ _).2 (Or.inr hmore)⟩).2.2
    · exact ((h fd).1 ⟨hmem, hsome, hevent⟩).1.2
  · rintro ⟨hunpolled, hmore, hasked⟩ fd
    constructor
    · rintro ⟨hmem, hsome, hevent⟩
      exact ⟨⟨(mem_polled hmem).1, hasked fd hmem hsome hevent⟩,
        (and_or_ne_zero _ _ _).2 (Or.inl hevent)⟩
    · rintro ⟨hreq, hne⟩
      -- An event outside the polled fds is none.
      have hmem : fd ∈ polled numFds reads writes := by
        by_contra hnot
        exact hne (hunpolled fd hnot hreq)
      refine ⟨hmem, isSome_of_fdIsSet hreq.2, ?_⟩
      rcases (and_or_ne_zero _ _ _).1 hne with hevent | hother
      · exact hevent
      · exact hmore fd hmem hreq.2 hother

/-- What a select that succeeds leaves in its sets and counts is what it is to report exactly under
that condition. -/
theorem selects_iff (hnum : numFds ≤ fdSetSize)
    (h : Act.Runs (pselect numFds reads writes excepts timeout) s trace (.ok out) s')
    (hreports : AgreesWith reports (polled numFds reads writes) trace) :
    Selects numFds reads writes excepts timeout reports out ↔
      SelectsRight numFds reads writes excepts timeout reports := by
  obtain ⟨hreads, hwrites, hexcepts, htotal⟩ := runs_pselect h hreports
  have hreadsIff := reported_iff hreads (POLLHUP ||| POLLERR)
  have hwritesIff := reported_iff hwrites POLLERR
  have hassoc : kPollIn ||| POLLHUP ||| POLLERR = kPollIn ||| (POLLHUP ||| POLLERR) := rfl
  have hnone : setBits out.excepts = 0 := by
    unfold setBits
    simp [hexcepts]
  -- The fds counted and the bits set differ by the fds with both events.
  have hbits := length_filter_or (polled numFds reads writes) (hit reads kPollIn reports)
    (hit writes kPollOut reports)
  rw [← setBits_eq hnum hreads, ← setBits_eq hnum hwrites] at hbits
  have honce : out.total = setBits out.reads + setBits out.writes + setBits out.excepts ↔
      ∀ fd ∈ polled numFds reads writes, reads.isSome → writes.isSome →
        reports fd &&& kPollIn = 0 ∨ reports fd &&& kPollOut = 0 := by
    have hcount : out.total = setBits out.reads + setBits out.writes + setBits out.excepts ↔
        ((polled numFds reads writes).filter fun fd =>
          hit reads kPollIn reports fd && hit writes kPollOut reports fd).length = 0 := by
      have hsame : out.total = ((polled numFds reads writes).filter fun fd =>
          hit reads kPollIn reports fd || hit writes kPollOut reports fd).length := htotal
      omega
    rw [hcount, List.length_eq_zero_iff, List.filter_eq_nil_iff]
    refine forall₂_congr fun fd _ => ?_
    rw [Bool.and_eq_true, hit_eq_true, hit_eq_true]
    by_cases hin : reports fd &&& kPollIn = 0
    · simp [hin]
    · by_cases hout : reports fd &&& kPollOut = 0
      · simp [hout]
      · simp [hin, hout]
  have hzero : out.total ≠ 0 ↔ ∃ fd ∈ polled numFds reads writes,
      hasHit reads writes reports fd = true := by
    rw [htotal, ← Nat.pos_iff_ne_zero, List.length_pos_iff_exists_mem]
    simp only [List.mem_filter]
  constructor
  · rintro ⟨hr, hw, ht, hwaits⟩
    rw [hassoc] at hr
    obtain ⟨hunpolledR, hhup, haskedR⟩ := hreadsIff.1 hr
    obtain ⟨hunpolledW, herr, haskedW⟩ := hwritesIff.1 hw
    refine ⟨fun fd hnot => ⟨hunpolledR fd hnot, hunpolledW fd hnot⟩, hhup, herr,
      fun fd hmem => ⟨haskedR fd hmem, haskedW fd hmem⟩, honce.1 ht, fun htimeout => ?_⟩
    by_cases hhit : ∃ fd ∈ polled numFds reads writes, hasHit reads writes reports fd = true
    · exact Or.inl hhit
    · right
      intro fd hreq
      by_contra hne
      exact hhit (hzero.1 (hwaits htimeout ⟨fd, hreq, hne⟩))
  · rintro ⟨hunpolled, hhup, herr, hasked, hone, hwaits⟩
    refine ⟨?_, ?_, honce.2 hone, ?_⟩
    · rw [hassoc]
      exact hreadsIff.2 ⟨fun fd hnot => (hunpolled fd hnot).1, hhup,
        fun fd hmem => (hasked fd hmem).1⟩
    · exact hwritesIff.2 ⟨fun fd hnot => (hunpolled fd hnot).2, herr,
        fun fd hmem => (hasked fd hmem).2⟩
    · rintro htimeout ⟨fd, hreq, hne⟩
      rcases hwaits htimeout with hhit | hnone'
      · exact hzero.2 hhit
      · exact absurd (hnone' fd hreq) hne

end

/-- The set of fd 1. -/
def onlyOne : FdSet := fdSet 1 fun _ => 0

/-- The kernel's answer when it reports these events of the first fd. -/
def reportsFirst (revents : Byte) : Answer :=
  ⟨1, [], fun i => if i = 10 then revents else 0, 0, []⟩

/-- What there is to report then of fd 1. -/
def ofOne (revents : ℕ) (fd : ℕ) : ℕ := if fd = 1 then revents else 0

/-- The answer reports what there is of fd 1. -/
theorem agreesWith_ofOne (revents : Byte) {c : KCall} :
    AgreesWith (ofOne revents.toNat) [1] [(c, reportsFirst revents)] := by
  intro step hstep i fd hi
  rw [List.mem_singleton.1 hstep]
  cases i with
  | zero =>
    obtain rfl := Option.some.inj hi
    show revents.toNat + 256 * 0 = revents.toNat
    omega
  | succ i => exact nomatch hi

/-- Input is reported of fd 1, for which a select waits. -/
theorem selects_iff_input : ∃ trace out,
    Act.Runs (pselect 2 (some onlyOne) none none none) initialLibc trace (.ok out) initialLibc ∧
    Selects 2 (some onlyOne) none none none (ofOne kPollIn) out := by
  have hrun := Act.exec_runs (pselect 2 (some onlyOne) none none none) initialLibc
    fun _ => reportsFirst 1
  have hpolled : polled 2 (some onlyOne) none = [1] := by decide
  refine ⟨_, _, hrun,
    (selects_iff (by decide) hrun (by rw [hpolled]; exact agreesWith_ofOne 1)).2 ?_⟩
  constructor
  case unpolled =>
    intro fd hfd
    rw [hpolled, List.mem_singleton] at hfd
    have hnone : ofOne kPollIn fd = 0 := if_neg hfd
    rw [hnone]
    exact ⟨fun _ => Nat.zero_and _, fun _ => Nat.zero_and _⟩
  all_goals rw [hpolled]
  case waits => exact fun _ => Or.inl ⟨1, List.mem_singleton_self 1, by decide⟩
  all_goals
    intro fd hfd
    rw [List.mem_singleton.1 hfd]
    decide

/-- A hang-up alone is not reported: the select returns 0 though it has no timeout. -/
theorem hangup_dropped : ∃ trace out,
    Act.Runs (pselect 2 (some onlyOne) none none none) initialLibc trace (.ok out) initialLibc ∧
    AgreesWith (ofOne POLLHUP) (polled 2 (some onlyOne) none) trace ∧ out.total = 0 ∧
    ¬Selects 2 (some onlyOne) none none none (ofOne POLLHUP) out := by
  have hrun := Act.exec_runs (pselect 2 (some onlyOne) none none none) initialLibc
    fun _ => reportsFirst 16
  have hpolled : polled 2 (some onlyOne) none = [1] := by decide
  have hreports : AgreesWith (ofOne POLLHUP) (polled 2 (some onlyOne) none)
      ((pselect 2 (some onlyOne) none none none).exec initialLibc fun _ => reportsFirst 16).2 := by
    rw [hpolled]
    exact agreesWith_ofOne 16
  refine ⟨_, _, hrun, hreports, rfl, fun hselects => ?_⟩
  have hrequested : Requested 2 (some onlyOne) 1 := ⟨by decide, by decide⟩
  exact hselects.waits rfl ⟨1, Or.inl hrequested, by decide⟩ rfl

end IUserApps.Sysdeps
