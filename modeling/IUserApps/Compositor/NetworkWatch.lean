import IUserApps.Runs

/-!
# The network watch

`watch_network` of `platform.cpp` runs in a thread of its own: it waits for the configuration of the
network to change, sets `gNetworkOnline` and then sends a message, which says nothing, to the queue
of the compositor. The compositor may wait in its queue for hours, so the taskbar depends on that
message; yet it is sent without waiting and is lost when the queue is full.

Here each thread takes its steps one by one, between those of the other, of the programs that post
to the queue and of the kernel. A step of `runOnce` is one of its reads of the flag or of the queue.
What is drawn is followed at one place of the taskbar's icon, which reads the flag once more when it
is repainted.

Left out are a call that fails, which the watch makes again a second later, and its end where there
is no network device.
-/

namespace IUserApps.Compositor

open Runs

/-- What the kernel knows of the network; every change has a generation of its own. -/
structure NetConfig where
  generation : ℕ
  up : Bool
deriving DecidableEq, Repr

/-- Where the watch stands: in its call, before the flag with what the call gave, or before the
message with the flag set. -/
inductive WatcherAt
  | waiting
  | deciding (online : Bool)
  | waking
deriving DecidableEq, Repr

/-- Where a pass of the compositor stands, and whether the whole scene is to be redrawn. -/
inductive CompositorAt
  | polling
  | receiving
  | draining (full : Bool)
  | comparing (full : Bool)
  | assigning
  | drawing (full : Bool)
deriving DecidableEq, Repr

/-- The kernel's network, the watching thread, the message queue between them and the compositor. -/
structure NetworkWatch where
  config : NetConfig
  watcher : WatcherAt
  /-- The last generation that the watch was given. -/
  generation : ℕ
  networkOnline : Bool
  queue : ℕ
  compositor : CompositorAt
  shownNetworkOnline : Bool
  /-- The icon that the place shows. -/
  drawnOnline : Bool
deriving DecidableEq, Repr

/-- What a step of the compositor meets: at a poll, commits; in a message, the whole scene; at the
end, another reason to repaint the place. -/
inductive NetworkAction
  | configure (up : Bool)
  | post
  | watch
  | compose (dirty : Bool)
deriving DecidableEq, Repr

namespace NetworkWatch

/-- The state when the watch starts: the scene was drawn without a network. -/
def opened (config : NetConfig) (queue : ℕ) : NetworkWatch :=
  ⟨config, .waiting, 0, false, queue, .polling, false, false⟩

/-- The kernel's configuration changes. -/
def configure (s : NetworkWatch) (up : Bool) : NetworkWatch :=
  { s with config := ⟨s.config.generation + 1, up⟩ }

/-- A message is sent without waiting: in a full queue it is lost. -/
def send (capacity : ℕ) (s : NetworkWatch) : NetworkWatch :=
  if s.queue < capacity then { s with queue := s.queue + 1 } else s

/-- The next step of `watch_network`. -/
def watch (capacity : ℕ) (s : NetworkWatch) : NetworkWatch :=
  match s.watcher with
  | .waiting =>
    -- The call waits for a generation that the watch does not know.
    if s.config.generation = s.generation then s
    else { s with generation := s.config.generation, watcher := .deciding s.config.up }
  | .deciding online =>
    if online = s.networkOnline then { s with watcher := .waiting }
    else { s with networkOnline := online, watcher := .waking }
  | .waking => send capacity { s with watcher := .waiting }

/-- The next step of `runOnce`. -/
def compose (s : NetworkWatch) (dirty : Bool) : NetworkWatch :=
  match s.compositor with
  | .polling => { s with compositor := if dirty then .draining false else .receiving }
  | .receiving =>
    -- An empty queue is waited for.
    if s.queue = 0 then s else { s with queue := s.queue - 1, compositor := .draining dirty }
  | .draining full =>
    if s.queue = 0 then { s with compositor := .comparing full }
    else { s with queue := s.queue - 1, compositor := .draining (full || dirty) }
  | .comparing full =>
    { s with
      compositor := if s.networkOnline = s.shownNetworkOnline then .drawing full else .assigning }
  | .assigning => { s with shownNetworkOnline := s.networkOnline, compositor := .drawing true }
  | .drawing full =>
    { s with
      drawnOnline := if full || dirty then s.networkOnline else s.drawnOnline
      compositor := .polling }

/-- One action: the kernel's, the watcher's or the compositor's. -/
def step (capacity : ℕ) (s : NetworkWatch) : NetworkAction → NetworkWatch
  | .configure up => s.configure up
  | .post => s.send capacity
  | .watch => s.watch capacity
  | .compose dirty => s.compose dirty

variable {capacity : ℕ} {s : NetworkWatch}

/-! ## No change is missed -/

/-- What the watch has last been told. -/
def heard (s : NetworkWatch) : Bool :=
  match s.watcher with
  | .deciding online => online
  | _ => s.networkOnline

/-- The flag is going to be compared in this pass, whatever the queue holds. -/
def Compares (s : NetworkWatch) : Prop :=
  match s.compositor with
  | .draining _ => True
  | .comparing _ => True
  | .assigning => True
  | _ => False

/-- A flag that is not the one shown has its message ahead, in the queue or taken: a queue that
refuses the message holds another. -/
structure Sound (s : NetworkWatch) : Prop where
  known : s.generation ≤ s.config.generation
  told : s.generation = s.config.generation → s.heard = s.config.up
  woken : s.networkOnline ≠ s.shownNetworkOnline →
    s.watcher = .waking ∨ 0 < s.queue ∨ s.Compares

/-- Opening the watch and reading the state once leaves them in step. -/
theorem opened_sound {config : NetConfig} (h : config.generation = 0 → config.up = false)
    (queue : ℕ) : (opened config queue).Sound where
  known := Nat.zero_le _
  told := fun hg => (h hg.symm).symm
  woken := fun hne => absurd rfl hne

/-- A change of the network is a new generation, which the watcher has yet to see. -/
theorem Sound.configure (h : s.Sound) (up : Bool) : (s.configure up).Sound where
  known := Nat.le_succ_of_le h.known
  told := fun hg => by
    have hle := h.known
    have hlt : s.generation = s.config.generation + 1 := hg
    omega
  woken := h.woken

/-- After a send the queue holds a message. -/
theorem send_queue_pos (hcap : 0 < capacity) : 0 < (s.send capacity).queue := by
  unfold send
  split
  · exact Nat.succ_pos _
  · next hfull => exact Nat.lt_of_lt_of_le hcap (Nat.le_of_not_lt hfull)

/-- Sending changes nothing but the queue. -/
theorem send_eq : s.send capacity = { s with queue := (s.send capacity).queue } := by
  unfold send
  split <;> rfl

/-- A message that does not fit is still waiting behind others. -/
theorem Sound.send (h : s.Sound) (hcap : 0 < capacity) : (s.send capacity).Sound := by
  have hpos : 0 < (s.send capacity).queue := send_queue_pos hcap
  rw [send_eq]
  exact ⟨h.known, h.told, fun _ => .inr (.inl hpos)⟩

/-- The watcher reports the generation it saw. -/
theorem Sound.watch (h : s.Sound) (hcap : 0 < capacity) : (s.watch capacity).Sound := by
  have hahead : s.watcher ≠ .waking → s.networkOnline ≠ s.shownNetworkOnline →
      0 < s.queue ∨ s.Compares := fun hnot hne => by
    simpa [hnot] using h.woken hne
  unfold NetworkWatch.watch
  cases hw : s.watcher with
  | waiting =>
    dsimp only
    split
    · exact h
    · exact ⟨Nat.le_refl _, fun _ => rfl, fun hne => .inr (hahead (by simp [hw]) hne)⟩
  | deciding online =>
    have htold : s.generation = s.config.generation → online = s.config.up := by
      simpa [heard, hw] using h.told
    dsimp only
    split
    · next honline =>
      exact ⟨h.known, fun hg => honline.symm.trans (htold hg),
        fun hne => .inr (hahead (by simp [hw]) hne)⟩
    · exact ⟨h.known, htold, fun _ => .inl rfl⟩
  | waking =>
    have htold : s.generation = s.config.generation → s.networkOnline = s.config.up := by
      simpa [heard, hw] using h.told
    have hpos := send_queue_pos (s := { s with watcher := .waiting }) hcap
    dsimp only
    rw [send_eq]
    exact ⟨h.known, htold, fun _ => .inr (.inl hpos)⟩

/-- The compositor reads the state again for each message it receives. -/
theorem Sound.compose (h : s.Sound) (dirty : Bool) : (s.compose dirty).Sound := by
  have hcomp : ¬s.Compares → s.networkOnline ≠ s.shownNetworkOnline →
      s.watcher = .waking ∨ 0 < s.queue := fun hnot hne => by
    simpa [hnot] using h.woken hne
  unfold NetworkWatch.compose
  cases hc : s.compositor with
  | polling =>
    have hahead := hcomp (by simp [Compares, hc])
    exact ⟨h.known, h.told, fun hne => (hahead hne).imp_right .inl⟩
  | receiving =>
    dsimp only
    split
    · exact h
    · exact ⟨h.known, h.told, fun _ => .inr (.inr trivial)⟩
  | draining full =>
    dsimp only
    split
    · exact ⟨h.known, h.told, fun _ => .inr (.inr trivial)⟩
    · exact ⟨h.known, h.told, fun _ => .inr (.inr trivial)⟩
  | comparing full =>
    dsimp only
    split
    · next heq => exact ⟨h.known, h.told, fun hne => absurd heq hne⟩
    · exact ⟨h.known, h.told, fun _ => .inr (.inr trivial)⟩
  | assigning => exact ⟨h.known, h.told, fun hne => absurd rfl hne⟩
  | drawing full =>
    have hahead := hcomp (by simp [Compares, hc])
    exact ⟨h.known, h.told, fun hne => (hahead hne).imp_right .inl⟩

/-- Every action keeps the three in step. -/
theorem Sound.step (hcap : 0 < capacity) (h : s.Sound) (a : NetworkAction) :
    (s.step capacity a).Sound := by
  cases a with
  | configure up => exact h.configure up
  | post => exact h.send hcap
  | watch => exact h.watch hcap
  | compose dirty => exact h.compose dirty

/-! ## What the place shows -/

/-- The flag does not change between the comparison of a pass and its drawing. -/
def Steady (capacity : ℕ) (s : NetworkWatch) (a : NetworkAction) : Prop :=
  ∀ full, s.compositor = .drawing full → (s.step capacity a).networkOnline = s.networkOnline

/-- The place shows the flag that was compared, or is about to. -/
def Shows (s : NetworkWatch) : Prop :=
  match s.compositor with
  | .drawing full => s.networkOnline = s.shownNetworkOnline ∧
      (full = false → s.drawnOnline = s.shownNetworkOnline)
  | _ => s.drawnOnline = s.shownNetworkOnline

/-- A step of the others, which does not change the flag where it matters, keeps what is shown. -/
theorem Shows.other {s' : NetworkWatch} (h : s.Shows)
    (hsame : s'.compositor = s.compositor ∧ s'.shownNetworkOnline = s.shownNetworkOnline ∧
      s'.drawnOnline = s.drawnOnline)
    (hflag : ∀ full, s.compositor = .drawing full → s'.networkOnline = s.networkOnline) :
    s'.Shows := by
  obtain ⟨hc, hshown, hdrawn⟩ := hsame
  unfold Shows at h ⊢
  rw [hc, hshown, hdrawn]
  cases hd : s.compositor with
  | drawing full => simpa [hd, hflag full hd] using h
  | _ => simpa [hd] using h

/-- The watcher leaves what the compositor shows. -/
theorem watch_other : (s.watch capacity).compositor = s.compositor ∧
    (s.watch capacity).shownNetworkOnline = s.shownNetworkOnline ∧
    (s.watch capacity).drawnOnline = s.drawnOnline := by
  unfold watch
  split
  · split <;> exact ⟨rfl, rfl, rfl⟩
  · split <;> exact ⟨rfl, rfl, rfl⟩
  · rw [send_eq]
    exact ⟨rfl, rfl, rfl⟩

/-- The compositor draws what it shows. -/
theorem Shows.compose (h : s.Shows) (dirty : Bool) : (s.compose dirty).Shows := by
  unfold Shows at h
  unfold NetworkWatch.compose
  cases hc : s.compositor with
  | polling =>
    have hplace : s.drawnOnline = s.shownNetworkOnline := by simpa [hc] using h
    cases dirty <;> exact hplace
  | receiving =>
    have hplace : s.drawnOnline = s.shownNetworkOnline := by simpa [hc] using h
    dsimp only
    split
    · simpa [Shows, hc] using hplace
    · exact hplace
  | draining full =>
    have hplace : s.drawnOnline = s.shownNetworkOnline := by simpa [hc] using h
    dsimp only
    split <;> exact hplace
  | comparing full =>
    have hplace : s.drawnOnline = s.shownNetworkOnline := by simpa [hc] using h
    dsimp only
    split
    · next heq => exact ⟨heq, fun _ => hplace⟩
    · exact hplace
  | assigning => exact ⟨rfl, fun hfull => Bool.noConfusion hfull⟩
  | drawing full =>
    obtain ⟨heq, hplace⟩ : s.networkOnline = s.shownNetworkOnline ∧
        (full = false → s.drawnOnline = s.shownNetworkOnline) := by simpa [hc] using h
    show (if full || dirty then s.networkOnline else s.drawnOnline) = s.shownNetworkOnline
    split
    · exact heq
    · next hnot => exact hplace (by simp at hnot; exact hnot.1)

/-- Once the network is steady, what is drawn stays its state. -/
theorem Shows.step (h : s.Shows) {a : NetworkAction} (hsteady : Steady capacity s a) :
    (s.step capacity a).Shows := by
  cases a with
  | configure up => exact h.other ⟨rfl, rfl, rfl⟩ hsteady
  | post =>
    refine h.other ?_ hsteady
    show (s.send capacity).compositor = _ ∧ (s.send capacity).shownNetworkOnline = _ ∧
      (s.send capacity).drawnOnline = _
    rw [send_eq]
    exact ⟨rfl, rfl, rfl⟩
  | watch => exact h.other watch_other hsteady
  | compose dirty => exact h.compose dirty

/-! ## Coming to rest -/

/-- Both threads wait, the watch for a change and the compositor for a message. -/
def AtRest (s : NetworkWatch) : Prop :=
  s.watcher = .waiting ∧ s.config.generation = s.generation ∧ s.compositor = .receiving ∧
    s.queue = 0

/-- A bound on the steps that are left to the threads. -/
def work (s : NetworkWatch) : ℕ :=
  8 * ((if s.config.generation = s.generation then 0 else 3) +
      match s.watcher with
      | .waiting => 0
      | .deciding _ => 2
      | .waking => 1) +
    6 * s.queue +
    match s.compositor with
    | .receiving => 0
    | .polling => 1
    | .drawing _ => 2
    | .assigning => 3
    | .comparing _ => 4
    | .draining _ => 5

/-- A send adds at most one message. -/
theorem send_queue_le : (s.send capacity).queue ≤ s.queue + 1 := by
  unfold send
  split
  · exact Nat.le_refl _
  · exact Nat.le_succ _

/-- A step of the watch takes it on, unless it waits. -/
theorem watch_work (h : ¬(s.watcher = .waiting ∧ s.config.generation = s.generation)) :
    (s.watch capacity).work < s.work := by
  unfold watch
  cases hw : s.watcher with
  | waiting =>
    have hgen : s.config.generation ≠ s.generation := fun hgen => h ⟨hw, hgen⟩
    simp [work, hw, hgen]
  | deciding online =>
    dsimp only
    split
    · simp only [work, hw]
      omega
    · simp only [work, hw]
      omega
  | waking =>
    have hle := @send_queue_le capacity { s with watcher := .waiting }
    dsimp only at hle ⊢
    rw [send_eq]
    simp only [work, hw]
    omega

/-- A watcher that waits for the generation it has does nothing. -/
theorem watch_waiting (h : s.watcher = .waiting ∧ s.config.generation = s.generation) :
    s.watch capacity = s := by
  simp [watch, h.1, h.2]

/-- A step of the compositor takes it on, unless it waits. -/
theorem compose_work (h : ¬(s.compositor = .receiving ∧ s.queue = 0)) :
    (s.compose false).work < s.work := by
  unfold compose
  cases hc : s.compositor with
  | polling => simp [work, hc]
  | receiving =>
    have hq : s.queue ≠ 0 := fun hq => h ⟨hc, hq⟩
    simp only [if_neg hq, work, hc]
    omega
  | draining full =>
    dsimp only
    split
    · simp [work, hc]
    · simp only [work, hc]
      omega
  | comparing full =>
    dsimp only
    split
    · simp [work, hc]
    · simp [work, hc]
  | assigning => simp [work, hc]
  | drawing full => simp [work, hc]

/-- A compositor with no message and nothing dirty does nothing. -/
theorem compose_waiting (h : s.compositor = .receiving ∧ s.queue = 0) : s.compose false = s := by
  simp [compose, h.1, h.2]

/-- A round of the threads: steps of theirs, some of each. -/
def IsRound (as : List NetworkAction) : Prop :=
  (∀ a ∈ as, a = .watch ∨ a = .compose false) ∧ .watch ∈ as ∧ .compose false ∈ as

/-- A thread's step does nothing or leaves less work. -/
theorem thread_work {a : NetworkAction} (ha : a = .watch ∨ a = .compose false) :
    s.step capacity a = s ∨ (s.step capacity a).work < s.work := by
  rcases ha with rfl | rfl
  · by_cases hwait : s.watcher = .waiting ∧ s.config.generation = s.generation
    · exact .inl (watch_waiting hwait)
    · exact .inr (watch_work hwait)
  · by_cases hwait : s.compositor = .receiving ∧ s.queue = 0
    · exact .inl (compose_waiting hwait)
    · exact .inr (compose_work hwait)

/-- Threads that both stand still are at rest. -/
theorem atRest_of_still (hwatch : s.step capacity .watch = s)
    (hcompose : s.step capacity (.compose false) = s) : s.AtRest := by
  by_contra hnot
  by_cases hwait : s.watcher = .waiting ∧ s.config.generation = s.generation
  · have hlt := compose_work fun hc => hnot ⟨hwait.1, hwait.2, hc.1, hc.2⟩
    have hsame : s.compose false = s := hcompose
    rw [hsame] at hlt
    exact Nat.lt_irrefl _ hlt
  · have hlt := @watch_work capacity s hwait
    have hsame : s.watch capacity = s := hwatch
    rw [hsame] at hlt
    exact Nat.lt_irrefl _ hlt

/-- At rest the threads do nothing. -/
theorem AtRest.still (h : s.AtRest) {a : NetworkAction} (ha : a = .watch ∨ a = .compose false) :
    s.step capacity a = s := by
  rcases ha with rfl | rfl
  · exact watch_waiting ⟨h.1, h.2.1⟩
  · exact compose_waiting h.2.2

/-- As many rounds as there is work bring the threads to rest. -/
theorem atRest_of_rounds {rounds : List (List NetworkAction)} (h : ∀ r ∈ rounds, IsRound r)
    (hlen : s.work ≤ rounds.length) : (rounds.flatten.foldl (step capacity) s).AtRest := by
  refine @rests_of_rounds _ _ (step capacity) work AtRest rounds ?_ ?_ ?_ ?_ s hlen
  · exact fun s r hr a ha => thread_work ((h r hr).1 a ha)
  · exact fun s r hr hall => atRest_of_still (hall _ (h r hr).2.1) (hall _ (h r hr).2.2)
  · exact fun s hs r hr a ha => hs.still ((h r hr).1 a ha)
  · intro s hzero
    have hstill : ∀ {a : NetworkAction}, a = .watch ∨ a = .compose false →
        s.step capacity a = s := fun ha =>
      (thread_work ha).resolve_right (by omega)
    exact atRest_of_still (hstill (.inl rfl)) (hstill (.inr rfl))

/-! ## The watch as a whole -/

/-- The threads leave the configuration alone. -/
theorem thread_config {a : NetworkAction} (ha : a = .watch ∨ a = .compose false) :
    (s.step capacity a).config = s.config := by
  rcases ha with rfl | rfl
  · show (s.watch capacity).config = s.config
    unfold watch
    split
    · split <;> rfl
    · split <;> rfl
    · rw [send_eq]
  · show (s.compose false).config = s.config
    unfold compose
    split
    all_goals first | rfl | (split <;> rfl)

/-- The threads leave the network's configuration. -/
theorem rounds_config {rounds : List (List NetworkAction)} (h : ∀ r ∈ rounds, IsRound r) :
    (rounds.flatten.foldl (step capacity) s).config = s.config := by
  have hthreads : Along (step capacity) (fun _ a => a = .watch ∨ a = .compose false) s
      rounds.flatten := by
    refine along_iff.2 fun as a bs hsplit => ?_
    obtain ⟨r, hr, ha⟩ := List.mem_flatten.1 (hsplit ▸ List.mem_append_right as List.mem_cons_self)
    exact (h r hr).1 a ha
  exact foldl_of_invariant (fun t => t.config = s.config)
    (fun t a ht ha => (thread_config ha).trans ht) rfl hthreads

/-- The state after steps of the kernel, the programs and the threads, in any order. -/
def watched (capacity : ℕ) (config : NetConfig) (queue : ℕ) (as : List NetworkAction) :
    NetworkWatch :=
  as.foldl (step capacity) (opened config queue)

/-- In every order of the steps, and whether or not the wake finds room in the queue: when both
threads wait, the flag and what the compositor takes for shown are what the kernel knows, and so is
the icon if the flag never changed between a comparison and the drawing after it. And both come to
wait after as many rounds of their steps as there is work, if no program and no change keeps them
from it. -/
theorem network_shown (hcap : 0 < capacity) {config : NetConfig}
    (hfirst : config.generation = 0 → config.up = false) (queue : ℕ) (as : List NetworkAction) :
    ((watched capacity config queue as).AtRest →
      (watched capacity config queue as).networkOnline =
        (watched capacity config queue as).config.up ∧
      (watched capacity config queue as).shownNetworkOnline =
        (watched capacity config queue as).config.up ∧
      (Along (step capacity) (Steady capacity) (opened config queue) as →
        (watched capacity config queue as).drawnOnline =
          (watched capacity config queue as).config.up)) ∧
    ∀ rounds : List (List NetworkAction), (∀ r ∈ rounds, IsRound r) →
      (watched capacity config queue as).work ≤ rounds.length →
      (watched capacity config queue (as ++ rounds.flatten)).AtRest ∧
      (watched capacity config queue (as ++ rounds.flatten)).config =
        (watched capacity config queue as).config := by
  constructor
  · rintro ⟨hwatch, hgen, hcomp, hqueue⟩
    have hsound : (watched capacity config queue as).Sound :=
      foldl_of_invariant (P := fun _ _ => True) Sound (fun s a h _ => h.step hcap a)
        (opened_sound hfirst queue) (along_iff.2 fun _ _ _ _ => trivial)
    have hflag := hsound.told hgen.symm
    have hshown : (watched capacity config queue as).networkOnline =
        (watched capacity config queue as).shownNetworkOnline := by
      by_contra hne
      rcases hsound.woken hne with hwaking | hpos | hcompares
      · rw [hwatch] at hwaking
        exact WatcherAt.noConfusion hwaking
      · omega
      · simp [Compares, hcomp] at hcompares
    simp only [heard, hwatch] at hflag
    refine ⟨hflag, hshown.symm.trans hflag, fun hsteady => ?_⟩
    have hplace : (watched capacity config queue as).Shows :=
      foldl_of_invariant Shows (fun s a h hs => h.step hs) rfl hsteady
    simp only [Shows, hcomp] at hplace
    exact hplace.trans (hshown.symm.trans hflag)
  · intro rounds hrounds hlen
    have happend : watched capacity config queue (as ++ rounds.flatten) =
        rounds.flatten.foldl (step capacity) (watched capacity config queue as) :=
      List.foldl_append
    rw [happend]
    exact ⟨atRest_of_rounds hrounds hlen, rounds_config hrounds⟩

instance : Decidable s.AtRest := inferInstanceAs (Decidable (_ ∧ _))

instance (s : NetworkWatch) (a : NetworkAction) : Decidable (Steady capacity s a) :=
  inferInstanceAs (Decidable (∀ _ : Bool, _ → _))

/-- The network comes up while the queue is full, so that the wake is lost. -/
def cameUp : List NetworkAction :=
  List.replicate 3 .watch ++ List.replicate 8 (.compose false)

/-- The network comes up while the message queue holds one message, and the icon is drawn online. -/
theorem network_shown_cameUp : (watched 1 ⟨1, true⟩ 1 cameUp).drawnOnline = true :=
  ((network_shown Nat.one_pos (by decide) 1 cameUp).1 (by decide)).2.2 (by decide)

/-- The network goes away after a comparison and is back before the next: the icon was drawn
between, and nothing draws it again. -/
def flickered : List NetworkAction :=
  List.replicate 3 .watch ++ List.replicate 5 (.compose false) ++
    [.configure false, .watch, .watch, .compose false, .configure true] ++
    List.replicate 4 .watch ++ List.replicate 7 (.compose false)

example : (watched 2 ⟨1, true⟩ 0 flickered).AtRest ∧
    (watched 2 ⟨1, true⟩ 0 flickered).config.up = true ∧
    (watched 2 ⟨1, true⟩ 0 flickered).drawnOnline = false := by decide

end NetworkWatch

end IUserApps.Compositor
