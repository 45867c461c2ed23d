import IUserApps.NsLookup.Servers
import IUserApps.Runs

/-!
# The network manager follows the configuration

`watch_config` of the network manager waits for the interface's configuration to change, writes the
two files for each new one, and tries once to have the clock set, when the interface first comes up.
What the kernel gives in a pass is the pass's input: a failed call, or a configuration with its
generation, the answers to the calls of `apply_config` if there are any, and those to the calls that
set the clock. These are made in a thread of their own, whose steps touch nothing else.

A file is never torn unless one of the manager's writes was, and after passes in which nothing
failed it belongs to the newest configuration; so `nslookup` then asks the newest configuration's
first server (`watch_follows`). The pause behind a failed call is left out.
-/

namespace IUserApps.NetworkManager

open Interact NsLookup Runs Texts

/-! ## Both files -/

/-- A write that is renamed into place, or does not come so far. -/
theorem writeFile_after {path data : List Byte} (htemp : path ≠ tempPath path) {trace : Trace}
    (h : (writeFile path data).Runs trace ()) : ∃ out : Option (List Byte),
      (∀ rest, replacements (trace ++ rest) =
        (out.map fun written => ⟨path, data, written⟩).toList ++ replacements rest) ∧
      (∀ fs, (after fs trace).contents path = out.elim (fs.contents path) some) ∧
      ∀ fs q, q ≠ path → q ≠ tempPath path → (after fs trace).contents q = fs.contents q := by
  rcases writeFile_runs h with ⟨a, line, b, hfail, rfl⟩ |
    ⟨a, b, c, d, rest, hopen, rfl, ⟨hfail, line, e, rfl⟩ | ⟨hrenamed, rfl⟩⟩
  · refine ⟨none, fun rest => by simp [replacements], fun fs => ?_, fun fs q _ _ => ?_⟩
    · simp [after, Files.step, hfail]
    · simp [after, Files.step, hfail]
  · refine ⟨none, fun rest => by simp [replacements, hfail], fun fs => ?_, fun fs q _ hqt => ?_⟩
    · simp [after, Files.step, hfail, hopen, htemp]
    · simp [after, Files.step, hfail, hopen, hqt]
  · refine ⟨some (data.take b.stored), fun rest => by simp [replacements, hrenamed], fun fs => ?_,
      fun fs q hq hqt => ?_⟩
    · simp [after, Files.step, hrenamed, hopen, htemp]
    · simp [after, Files.step, hrenamed, hopen, hq, hqt]

/-- What a run of `apply_config` leaves: each file as it was, or replaced by what was written. -/
structure Applied (config : NetConfig) (fs : Files) (trace : Trace)
    (resolvOut hostsOut : Option (List Byte)) : Prop where
  replaced : replacements trace =
    (resolvOut.map fun written => ⟨resolvConfPath, resolvText config, written⟩).toList ++
      (hostsOut.map fun written => ⟨hostsPath, hostsText config, written⟩).toList
  resolvFile : (after fs trace).contents resolvConfPath =
    resolvOut.elim (fs.contents resolvConfPath) some
  hostsFile : (after fs trace).contents hostsPath = hostsOut.elim (fs.contents hostsPath) some

/-- Every run of `apply_config` leaves each file replaced with what was stored of its text, or as it
was. -/
theorem applyConfig_applied {config : NetConfig} {trace : Trace}
    (h : (applyConfig config).Runs trace ()) (fs : Files) :
    ∃ resolvOut hostsOut, Applied config fs trace resolvOut hostsOut := by
  unfold applyConfig at h
  obtain ⟨first, rest, ⟨⟩, rfl, hresolv, hrest⟩ := Prog.runs_bind.1 h
  obtain ⟨second, last, ⟨⟩, rfl, hhosts, hlast⟩ := Prog.runs_bind.1 hrest
  obtain ⟨a, tail, rfl, hdone⟩ := Prog.runs_call.1 hlast
  obtain ⟨rfl, -⟩ := Prog.runs_done.1 hdone
  rw [resolv_eq] at hresolv
  rw [hosts_eq] at hhosts
  obtain ⟨out, hreplaced, hput, hothers⟩ := writeFile_after (by decide) hresolv
  obtain ⟨out', hreplaced', hput', hothers'⟩ := writeFile_after (by decide) hhosts
  have hprint : ∀ fs, after fs [(.print (summary config), a)] = fs := fun _ => rfl
  have hnone : replacements [(.print (summary config), a)] = [] := rfl
  refine ⟨out, out', ?_, ?_, ?_⟩
  · rw [hreplaced, hreplaced', hnone, List.append_nil]
  · rw [after_append, after_append, hprint, hothers' _ _ (by decide) (by decide), hput]
  · rw [after_append, after_append, hprint, hput', hothers _ _ (by decide) (by decide)]

/-! ## The clock -/

/-- What `thread_create` returns, in the thread the calls for `/bin/sntp`, and what `status` holds
behind `wait`. -/
structure SyncAnswers where
  thread : BitVec 64
  stat : BitVec 64
  pid : BitVec 64
  status : BitVec 32

/-- What becomes of an attempt to set the clock. -/
inductive SyncResult
  | noThread
  | noSntp
  | notStarted
  | ended (status : BitVec 32)
deriving DecidableEq, Repr

/-- The thread's part. -/
def syncClock (a : SyncAnswers) : SyncResult :=
  if syscallFailed a.stat then .noSntp
  else if a.pid = fail ∨ a.pid = 0 then .notStarted
  else .ended a.status

/-- The thread is made, and sets the clock. -/
def trySync (a : SyncAnswers) : SyncResult :=
  if a.thread = fail then .noThread else syncClock a

/-! ## The watch -/

/-- What the watch keeps, the files, the configurations it applied (the newest first), and what
became of its attempts to set the clock. -/
structure Watch where
  generation : ℕ
  clockSynced : Bool
  files : Files
  applied : List NetConfig
  syncs : List SyncResult

/-- What a pass meets: the call's answer, a failure or a configuration with its generation, the calls
of `apply_config` with theirs, and the answers to those that set the clock. -/
structure Turn where
  answer : Option (ℕ × NetConfig)
  trace : Trace
  sync : SyncAnswers

/-- The configuration that a pass applies: one that the watch has not seen. -/
def Turn.news (i : Turn) (s : Watch) : Option (ℕ × NetConfig) :=
  i.answer.filter fun p => decide (p.1 ≠ s.generation)

/-- Nothing has been applied yet. -/
def Watch.start (files : Files) : Watch := ⟨0, false, files, [], []⟩

/-- A pass of `watch_config`. -/
def Watch.step (s : Watch) (i : Turn) : Watch :=
  (i.news s).elim s fun (generation, config) =>
    let sync := !s.clockSynced && isUp config
    ⟨generation, s.clockSynced || sync, after s.files i.trace, config :: s.applied,
      s.syncs ++ if sync then [trySync i.sync] else []⟩

/-- The calls of the pass are those of `apply_config`. -/
def Turn.Runs (s : Watch) (i : Turn) : Prop :=
  ∀ p ∈ i.news s, (applyConfig p.2).Runs i.trace ()

/-- Every file that the pass renames into place was written whole. -/
def Turn.Whole (s : Watch) (i : Turn) : Prop :=
  ∀ p ∈ i.news s, (applyConfig p.2).Runs i.trace () ∧
    ∀ r ∈ replacements i.trace, r.written = r.data

/-- And both files were renamed into place. -/
def Turn.Works (s : Watch) (i : Turn) : Prop :=
  i.Whole s ∧ ∀ p ∈ i.news s, (replacements i.trace).length = 2

/-- There is one attempt, for the first configuration that is up, whatever becomes of it. -/
def Watch.ClockRight (s : Watch) : Prop :=
  s.clockSynced = s.applied.any isUp ∧ s.syncs.length = if s.clockSynced then 1 else 0

/-- A pass makes the attempt if its configuration is the first that is up. -/
theorem Watch.ClockRight.step {s : Watch} (h : s.ClockRight) (i : Turn) :
    (s.step i).ClockRight := by
  unfold Watch.step
  cases i.news s with
  | none => exact h
  | some p =>
    obtain ⟨generation, config⟩ := p
    obtain ⟨hsynced, hsyncs⟩ := h
    unfold Watch.ClockRight
    dsimp only [Option.elim_some]
    rw [List.any_cons, ← hsynced, List.length_append, hsyncs]
    cases s.clockSynced with
    | true => simp
    | false => by_cases hup : isUp config = true <;> simp [hup]

/-! ## The files -/

/-- A file holds what it held at first, or the whole text of a configuration that was applied. -/
def Holds (first : Option (List Byte)) (text : NetConfig → List Byte) (applied : List NetConfig)
    (contents : Option (List Byte)) : Prop :=
  contents = first ∨ ∃ config ∈ applied, contents = some (text config)

/-- A file that is replaced holds the new text, and one that is not holds what it held. -/
theorem Holds.applied {first contents : Option (List Byte)} {text : NetConfig → List Byte}
    {applied : List NetConfig} (h : Holds first text applied contents) {config : NetConfig}
    {out : Option (List Byte)} (hout : ∀ w ∈ out, w = text config) :
    Holds first text (config :: applied) (out.elim contents some) := by
  cases out with
  | none =>
    rcases h with h | ⟨old, hold, h⟩
    · exact .inl h
    · exact .inr ⟨old, List.mem_cons_of_mem config hold, h⟩
  | some w =>
    rw [hout w rfl]
    exact .inr ⟨config, List.mem_cons_self, rfl⟩

/-- Both files are whole. -/
def Watch.FilesWhole (fs : Files) (s : Watch) : Prop :=
  Holds (fs.contents resolvConfPath) resolvText s.applied (s.files.contents resolvConfPath) ∧
    Holds (fs.contents hostsPath) hostsText s.applied (s.files.contents hostsPath)

/-- What was renamed into place in a pass whose writes are whole. -/
theorem Applied.whole {config : NetConfig} {fs : Files} {trace : Trace}
    {resolvOut hostsOut : Option (List Byte)} (h : Applied config fs trace resolvOut hostsOut)
    (hwhole : ∀ r ∈ replacements trace, r.written = r.data) :
    (∀ w ∈ resolvOut, w = resolvText config) ∧ ∀ w ∈ hostsOut, w = hostsText config := by
  rw [h.replaced, List.forall_mem_append] at hwhole
  constructor
  · rintro w rfl
    exact hwhole.1 ⟨resolvConfPath, resolvText config, w⟩ (by simp)
  · rintro w rfl
    exact hwhole.2 ⟨hostsPath, hostsText config, w⟩ (by simp)

/-- A pass whose files were written whole leaves each whole. -/
theorem Watch.FilesWhole.step {fs : Files} {s : Watch} (h : s.FilesWhole fs) {i : Turn}
    (hi : i.Whole s) : (s.step i).FilesWhole fs := by
  unfold Watch.step
  cases hnews : i.news s with
  | none => exact h
  | some p =>
    obtain ⟨generation, config⟩ := p
    obtain ⟨hruns, hwhole⟩ := hi _ hnews
    obtain ⟨resolvOut, hostsOut, happlied⟩ := applyConfig_applied hruns s.files
    obtain ⟨hresolv, hhosts⟩ := happlied.whole hwhole
    obtain ⟨hfirst, hsecond⟩ := h
    refine ⟨?_, ?_⟩
    · show Holds _ _ _ ((after s.files i.trace).contents resolvConfPath)
      rw [happlied.resolvFile]
      exact hfirst.applied hresolv
    · show Holds _ _ _ ((after s.files i.trace).contents hostsPath)
      rw [happlied.hostsFile]
      exact hsecond.applied hhosts

/-- The files are those of the newest configuration. -/
def Watch.UpToDate (s : Watch) : Prop :=
  ∀ config ∈ s.applied.head?, s.files.contents resolvConfPath = some (resolvText config) ∧
    s.files.contents hostsPath = some (hostsText config)

/-- A pass that works brings the files up to date, whatever was there. -/
theorem Turn.Works.upToDate {s : Watch} {i : Turn} (hi : i.Works s) {p : ℕ × NetConfig}
    (hnews : i.news s = some p) : (s.step i).UpToDate := by
  obtain ⟨generation, config⟩ := p
  obtain ⟨hruns, hwhole⟩ := hi.1 _ hnews
  have hboth := hi.2 _ hnews
  obtain ⟨resolvOut, hostsOut, happlied⟩ := applyConfig_applied hruns s.files
  obtain ⟨hresolv, hhosts⟩ := happlied.whole hwhole
  rw [happlied.replaced, List.length_append] at hboth
  -- Two files renamed into place are one of each.
  obtain ⟨w, rfl⟩ : ∃ w, resolvOut = some w := by
    cases resolvOut with
    | none => cases hostsOut <;> simp at hboth
    | some w => exact ⟨w, rfl⟩
  obtain ⟨w', rfl⟩ : ∃ w, hostsOut = some w := by
    cases hostsOut with
    | none => simp at hboth
    | some w => exact ⟨w, rfl⟩
  unfold Watch.step
  rw [hnews]
  intro newest hnewest
  obtain rfl : config = newest := Option.some.inj hnewest
  refine ⟨?_, ?_⟩
  · show (after s.files i.trace).contents resolvConfPath = _
    rw [happlied.resolvFile, hresolv w rfl]
    rfl
  · show (after s.files i.trace).contents hostsPath = _
    rw [happlied.hostsFile, hhosts w' rfl]
    rfl

/-- A pass without news changes nothing. -/
theorem Watch.step_none {s : Watch} {i : Turn} (h : i.news s = none) : s.step i = s := by
  unfold Watch.step
  rw [h]
  rfl

/-- The server that `nslookup` asks by default. -/
def Watch.server (s : Watch) : Option (BitVec 32) :=
  (s.files.contents resolvConfPath).bind defaultServer

/-- The text of a configuration whose domain has no newline names its first server. -/
theorem defaultServer_text {config : NetConfig} (h : newline ∉ config.domain) :
    defaultServer (resolvText config) = (config.dns.take config.dnsCount).head? := by
  rw [← resolv_eq]
  unfold defaultServer
  rw [lines_resolv, List.findSome?_append, findSome_servers,
    domainLines_none h config.length_domain, Option.none_or]

/-- In every run there is one attempt to set the clock if a configuration was up, also when it fails,
and else there is none. While every file that is renamed into place was written whole, each of the
two files is the one of the start or of a configuration that was applied. And when no write failed
in the last pass that had news, whatever failed before, both are those of the newest configuration,
whose first server `nslookup` asks if its domain has no newline. -/
theorem watch_follows (fs : Files) (turns : List Turn) :
    let run := fun turns => turns.foldl Watch.step (Watch.start fs)
    (run turns).syncs.length = (if (run turns).applied.any isUp then 1 else 0) ∧
      (Along Watch.step (fun s i => i.Whole s) (Watch.start fs) turns →
        (run turns).FilesWhole fs) ∧
      ∀ earlier i later, turns = earlier ++ i :: later →
        i.Works (run earlier) → ∀ p ∈ i.news (run earlier),
          Along Watch.step (fun s i => i.news s = none) (run (earlier ++ [i])) later →
            (run turns).applied.head? = some p.2 ∧ (run turns).UpToDate ∧
              (newline ∉ p.2.domain →
                (run turns).server = (p.2.dns.take p.2.dnsCount).head?) := by
  intro run
  have hall : Along Watch.step (fun _ _ => True) (Watch.start fs) turns :=
    along_iff.2 fun _ _ _ _ => trivial
  obtain ⟨hsynced, hsyncs⟩ : (run turns).ClockRight :=
    foldl_of_invariant Watch.ClockRight (fun _ i h _ => h.step i) ⟨rfl, rfl⟩ hall
  refine ⟨by rw [hsyncs, hsynced], fun hwhole => ?_, ?_⟩
  · exact foldl_of_invariant (Watch.FilesWhole fs) (fun _ _ h hi => h.step hi)
      ⟨.inl rfl, .inl rfl⟩ hwhole
  · rintro earlier i later rfl hworks p hp hquiet
    have hpass : run (earlier ++ [i]) = (run earlier).step i := List.foldl_append
    have hlast : run (earlier ++ i :: later) = (run earlier).step i := by
      rw [hpass] at hquiet
      have hstill : later.foldl Watch.step ((run earlier).step i) = (run earlier).step i :=
        foldl_of_invariant (fun s => s = (run earlier).step i)
          (fun s i hs hi => (Watch.step_none hi).trans hs) rfl hquiet
      exact List.foldl_append.trans hstill
    have hhead : ((run earlier).step i).applied.head? = some p.2 := by
      unfold Watch.step
      rw [hp]
      rfl
    have hdate := hworks.upToDate hp
    rw [hlast]
    refine ⟨hhead, hdate, fun hdomain => ?_⟩
    unfold Watch.server
    rw [(hdate p.2 hhead).1, Option.bind_some, defaultServer_text hdomain]

/-- The calls that write both files whole. -/
def roomAgain : Trace :=
  replacing resolvConfPath (resolv leased) 23 ++
    (replacing hostsPath (hosts leased) 40 ++ [(.print (summary leased), ⟨0, 0⟩)])

/-- There is no `/bin/sntp`. -/
def noSntp : SyncAnswers := ⟨7, -2, 0, 0⟩

/-- With room on the disk both files are replaced. -/
theorem roomAgain_works (s : Watch) : Turn.Works s ⟨some (2, leased), roomAgain, noSntp⟩ := by
  have hruns : (applyConfig leased).Runs roomAgain () :=
    Prog.runs_bind.2 ⟨_, _, (), rfl, replacing_runs _ _ _,
      Prog.runs_bind.2 ⟨_, _, (), rfl, replacing_runs _ _ _, .call _ _ (.done _)⟩⟩
  have hnews : ∀ p ∈ Turn.news ⟨some (2, leased), roomAgain, noSntp⟩ s, p = (2, leased) := by
    intro p hp
    exact (Option.some.inj (Option.filter_eq_some_iff.1 hp).1).symm
  have hwhole : ∀ r ∈ replacements roomAgain, r.written = r.data := by decide +kernel
  constructor
  · intro p hp
    rw [hnews p hp]
    exact ⟨hruns, hwhole⟩
  · intro p hp
    decide +kernel

/-- The disk is full, then the lease is renewed and there is room again, then a call fails. -/
def renewedTurns : List Turn :=
  [⟨some (1, leased), diskFull, noSntp⟩, ⟨some (2, leased), roomAgain, noSntp⟩, ⟨none, [], noSntp⟩]

/-- After a full disk the renewed lease is written, and the resolver gets its server. -/
theorem watch_follows_renewed :
    let last := renewedTurns.foldl Watch.step (Watch.start bothFiles)
    last.syncs = [.noSntp] ∧ last.UpToDate ∧ last.server = some 0x0302000A := by
  have hrun := (watch_follows bothFiles renewedTurns).2.2 [⟨some (1, leased), diskFull, noSntp⟩] _ _
    rfl (roomAgain_works _) (2, leased) rfl ⟨rfl, trivial⟩
  exact ⟨rfl, hrun.2.1, hrun.2.2 (by decide)⟩

end IUserApps.NetworkManager
