import IUserApps.Interact
import IUserApps.Words
import Mathlib.Data.List.Basic

/-!
# The network manager's files

`apply_config` of the network manager writes `/etc/resolv.conf` and `/etc/hosts` for an interface
configuration: each to a file of its own beside it, which is then renamed into its place. The answer
of every call is the kernel's; `Files` is what the calls with their answers do to the files, and
`readings` what a reader of a file can see at any moment of a run. `applyConfig_atomic_iff` says in
which runs that is the old contents or the complete new ones.
-/

namespace IUserApps.NetworkManager

open Interact

/-- The calls of `apply_config`. -/
inductive Call
  | openFile (path : List Byte) (flags mode : ℕ)
  | write (fd : BitVec 64) (data : List Byte)
  | close (fd : BitVec 64)
  | rename (old new : List Byte)
  | print (text : List Byte)
deriving DecidableEq, Repr

/-- What a call returns, and for `write` how many bytes reached the file. -/
structure Answer where
  value : BitVec 64
  stored : ℕ
deriving DecidableEq, Repr

/-- The calls of a run with their answers. -/
abbrev Trace := List (Call × Answer)

/-- The value of a call that failed. -/
def fail : BitVec 64 := -1

/-- The value is an error number, negated. -/
def syscallFailed (result : BitVec 64) : Bool := decide (-4095 ≤ result)

/-- What `snprintf` leaves in a buffer of this size. -/
def snprintf (size : ℕ) (text : List Byte) : List Byte := text.take (size - 1)

/-- The path of the file that is written first. -/
def tempPath (path : List Byte) : List Byte := snprintf 64 (path ++ ascii ".new")

/-- Replaces a file's contents. -/
def writeFile (path contents : List Byte) : Prog Call Answer Unit :=
  let temp := tempPath path
  .call (.openFile temp (0x1 ||| 0o100 ||| 0o1000) 0o644) fun fd =>
    if fd.value = fail then
      .call (.print (ascii "[network.manager] cannot write " ++ temp ++ ascii "\n")) fun _ =>
        .done ()
    else
      .call (.write fd.value contents) fun _ =>
        .call (.close fd.value) fun _ =>
          .call (.rename temp path) fun result =>
            if syscallFailed result.value then
              .call (.print (ascii "[network.manager] cannot rename " ++ temp ++ ascii "\n"))
                fun _ => .done ()
            else .done ()

/-- The name servers of a configuration. -/
def maxDns : ℕ := 3
/-- The size of the buffer for the domain. -/
def domainSize : ℕ := 64
/-- `NET_CONFIG_UP`. -/
def netConfigUp : BitVec 32 := 1
/-- `NET_CONFIG_DHCP`. -/
def netConfigDhcp : BitVec 32 := 2

/-- The configuration of the interface; the domain up to its NUL. -/
structure NetConfig where
  flags : BitVec 32
  address : BitVec 32
  gateway : BitVec 32
  dns : List (BitVec 32)
  dnsCount : ℕ
  domain : List Byte
  length_dns : dns.length = maxDns
  length_domain : domain.length < domainSize

/-- A number in decimal. -/
def decimal (n : ℕ) : List Byte := ascii (Nat.repr n)

/-- The bytes of an address, as they lie in memory. -/
def octet (address : BitVec 32) (i : ℕ) : Byte := address.extractLsb' (8 * i) 8

/-- An address in dotted decimal. -/
def dotted (address : BitVec 32) : List Byte :=
  decimal (octet address 0).toNat ++ ascii "." ++ decimal (octet address 1).toNat ++ ascii "." ++
    decimal (octet address 2).toNat ++ ascii "." ++ decimal (octet address 3).toNat

/-- An address as a buffer of this size holds it. -/
def formatIp (size : ℕ) (networkOrder : BitVec 32) : List Byte := snprintf size (dotted networkOrder)

/-- A buffer that texts are printed into one behind another, and how long they are. -/
structure Buffer where
  text : List Byte
  used : ℕ

/-- `used += snprintf(buffer + used, size - used, text)`. -/
def Buffer.print (size : ℕ) (buffer : Buffer) (text : List Byte) : Buffer :=
  ⟨buffer.text.take buffer.used ++ snprintf (size - buffer.used) text, buffer.used + text.length⟩

/-- The line of `resolv.conf` for the domain. -/
def searchLine (domain : List Byte) : List Byte := ascii "search " ++ domain ++ ascii "\n"

/-- The line of `resolv.conf` for a name server. -/
def nameserverLine (ip : List Byte) : List Byte := ascii "nameserver " ++ ip ++ ascii "\n"

/-- The buffer that is written to `/etc/resolv.conf`. -/
def resolv (config : NetConfig) : List Byte :=
  let buffer : Buffer := ⟨[], 0⟩
  let buffer := if config.domain ≠ [] then buffer.print 256 (searchLine config.domain) else buffer
  let buffer := (config.dns.take (min config.dnsCount maxDns)).foldl
    (fun buffer dns => buffer.print 256 (nameserverLine (formatIp 16 dns))) buffer
  buffer.text

/-- The interface is up. -/
def isUp (config : NetConfig) : Bool := config.flags &&& netConfigUp != 0

/-- The buffer that is written to `/etc/hosts`. -/
def hosts (config : NetConfig) : List Byte :=
  if isUp config then
    snprintf 128 (ascii "127.0.0.1\tlocalhost\n" ++ formatIp 16 config.address ++
      ascii "\tinstantos\n")
  else snprintf 128 (ascii "127.0.0.1\tlocalhost\n127.0.1.1\tinstantos\n")

/-- The file of the name servers. -/
def resolvConfPath : List Byte := ascii "/etc/resolv.conf"
/-- The file of the hosts. -/
def hostsPath : List Byte := ascii "/etc/hosts"

/-- The line that `apply_config` ends with. -/
def summary (config : NetConfig) : List Byte :=
  if isUp config then
    ascii "[network.manager] " ++
      (if config.flags &&& netConfigDhcp != 0 then ascii "dhcp" else ascii "static") ++
      ascii " address " ++ formatIp 16 config.address ++ ascii " gateway " ++
      formatIp 16 config.gateway ++ ascii ", " ++ decimal config.dnsCount ++
      ascii " name server(s); resolv.conf written\n"
  else ascii "[network.manager] interface down\n"

/-- Writes both files for a configuration and logs it. -/
def applyConfig (config : NetConfig) : Prog Call Answer Unit :=
  (writeFile resolvConfPath (resolv config)).bind fun _ =>
    (writeFile hostsPath (hosts config)).bind fun _ =>
      .call (.print (summary config)) fun _ => .done ()

/-! ## The files -/

/-- The contents of the files by path, and the paths of the open ones. -/
structure Files where
  contents : List Byte → Option (List Byte)
  opened : BitVec 64 → Option (List Byte)

/-- What a call with its answer does to the files. Opening empties the file, or makes it. -/
def Files.step (fs : Files) (call : Call × Answer) : Files :=
  match call.1 with
  | .openFile path _ _ =>
    if call.2.value = fail then fs
    else ⟨Function.update fs.contents path (some []),
      Function.update fs.opened call.2.value (some path)⟩
  | .write fd data =>
    match fs.opened fd with
    | none => fs
    | some path =>
      let contents := (fs.contents path).map (· ++ data.take call.2.stored)
      ⟨Function.update fs.contents path contents, fs.opened⟩
  | .close fd => ⟨fs.contents, Function.update fs.opened fd none⟩
  | .rename old new =>
    if syscallFailed call.2.value then fs
    else ⟨Function.update (Function.update fs.contents new (fs.contents old)) old none, fs.opened⟩
  | .print _ => fs

/-- What a reader of a file can see: its contents before the first call and after each one. -/
def readings (path : List Byte) : Files → Trace → List (Option (List Byte))
  | fs, [] => [fs.contents path]
  | fs, call :: trace => fs.contents path :: readings path (fs.step call) trace

/-- A file that was renamed into place: what should have been written to it, and what was. -/
structure Replacement where
  path : List Byte
  data : List Byte
  written : List Byte
deriving DecidableEq

/-- The files of a run that were written and then renamed into place. -/
def replacements : Trace → List Replacement
  | (.write _ data, a) :: (.close _, _) :: (.rename _ path, c) :: trace =>
    if syscallFailed c.value then replacements trace
    else ⟨path, data, data.take a.stored⟩ :: replacements trace
  | _ :: trace => replacements trace
  | [] => []

/-! ## What is written -/

/-- The contents that `/etc/resolv.conf` has for a configuration. -/
def resolvText (config : NetConfig) : List Byte :=
  (if config.domain ≠ [] then searchLine config.domain else []) ++
    (config.dns.take config.dnsCount).flatMap fun dns => nameserverLine (dotted dns)

/-- The contents that `/etc/hosts` has for a configuration. -/
def hostsText (config : NetConfig) : List Byte :=
  if isUp config then
    ascii "127.0.0.1\tlocalhost\n" ++ dotted config.address ++ ascii "\tinstantos\n"
  else ascii "127.0.0.1\tlocalhost\n127.0.1.1\tinstantos\n"

/-- A text that fits is printed whole. -/
theorem snprintf_of_lt {size : ℕ} {text : List Byte} (h : text.length < size) :
    snprintf size text = text := List.take_of_length_le (by omega)

/-- A byte is printed in at most three digits. -/
theorem length_decimal_le : ∀ b : Byte, (decimal b.toNat).length ≤ 3 := by decide +kernel

/-- An address is printed in at most 15 characters. -/
theorem length_dotted_le (address : BitVec 32) : (dotted address).length ≤ 15 := by
  have h := fun i => length_decimal_le (octet address i)
  have hdot : (ascii ".").length = 1 := rfl
  have h0 := h 0
  have h1 := h 1
  have h2 := h 2
  have h3 := h 3
  unfold dotted
  simp only [List.length_append]
  omega

/-- An address fits the buffer for one. -/
theorem formatIp_eq (address : BitVec 32) : formatIp 16 address = dotted address := by
  have := length_dotted_le address
  exact snprintf_of_lt (by omega)

/-- The text is whole so far. -/
def Buffer.Whole (size : ℕ) (buffer : Buffer) (text : List Byte) : Prop :=
  buffer = ⟨text, text.length⟩ ∧ text.length < size

/-- A text that fits behind the others leaves the buffer whole. -/
theorem Buffer.Whole.print {size : ℕ} {buffer : Buffer} {text : List Byte}
    (h : buffer.Whole size text) {more : List Byte} (hfits : text.length + more.length < size) :
    (buffer.print size more).Whole size (text ++ more) := by
  obtain ⟨rfl, -⟩ := h
  have hmore : snprintf (size - text.length) more = more := snprintf_of_lt (by omega)
  unfold Buffer.print
  refine ⟨?_, by rwa [List.length_append]⟩
  dsimp only
  rw [hmore, List.take_length, List.length_append]

/-- The line of a name server has at most 27 characters. -/
theorem length_nameserverLine_le (dns : BitVec 32) :
    (nameserverLine (dotted dns)).length ≤ 27 := by
  have := length_dotted_le dns
  have h0 : (ascii "nameserver ").length = 11 := rfl
  have h1 : (ascii "\n").length = 1 := rfl
  unfold nameserverLine
  simp only [List.length_append]
  omega

/-- Lines of name servers that fit are all printed. -/
theorem print_nameservers (servers : List (BitVec 32)) {buffer : Buffer} {text : List Byte}
    (h : buffer.Whole 256 text) (hfits : text.length + 27 * servers.length < 256) :
    (servers.foldl (fun buffer dns => buffer.print 256 (nameserverLine (formatIp 16 dns)))
        buffer).Whole 256 (text ++ servers.flatMap fun dns => nameserverLine (dotted dns)) := by
  induction servers generalizing buffer text with
  | nil =>
    rw [List.flatMap_nil, List.append_nil]
    exact h
  | cons dns servers ih =>
    have hline := length_nameserverLine_le dns
    rw [List.length_cons] at hfits
    rw [List.foldl_cons, List.flatMap_cons, ← List.append_assoc, formatIp_eq]
    refine ih (h.print (by omega)) ?_
    rw [List.length_append]
    omega

/-- A domain and the name servers that there can be fit into the buffer. -/
theorem resolv_eq (config : NetConfig) : resolv config = resolvText config := by
  have hservers : config.dns.take (min config.dnsCount maxDns) =
      config.dns.take config.dnsCount := by
    rw [← config.length_dns, ← List.take_eq_take_min]
  have hcount : (config.dns.take config.dnsCount).length ≤ 3 := by
    have := config.length_dns
    rw [List.length_take, this]
    exact Nat.min_le_right _ _
  have hempty : (⟨[], 0⟩ : Buffer).Whole 256 [] := ⟨rfl, by decide⟩
  unfold resolv resolvText
  dsimp only
  rw [hservers]
  split
  · have hlen : (searchLine config.domain).length = 7 + config.domain.length + 1 := by
      unfold searchLine
      rw [List.length_append, List.length_append]
      rfl
    have hdomain : config.domain.length < 64 := config.length_domain
    have hsearch : (Buffer.print 256 ⟨[], 0⟩ (searchLine config.domain)).Whole 256
        ([] ++ searchLine config.domain) := hempty.print (by rw [List.length_nil]; omega)
    rw [List.nil_append] at hsearch
    exact congrArg Buffer.text (print_nameservers _ hsearch (by omega)).1
  · exact congrArg Buffer.text (print_nameservers _ hempty (by rw [List.length_nil]; omega)).1

/-- The buffer holds the whole text for the hosts. -/
theorem hosts_eq (config : NetConfig) : hosts config = hostsText config := by
  have := length_dotted_le config.address
  have h0 : (ascii "127.0.0.1\tlocalhost\n").length = 20 := rfl
  have h1 : (ascii "\tinstantos\n").length = 11 := rfl
  unfold hosts hostsText
  split
  · rw [formatIp_eq, snprintf_of_lt]
    simp only [List.length_append]
    omega
  · rfl

/-! ## One file -/

/-- The files after a run. -/
def after (fs : Files) (trace : Trace) : Files := trace.foldl Files.step fs

/-- Calls in sequence change the files in sequence. -/
theorem after_append (fs : Files) (trace trace' : Trace) :
    after fs (trace ++ trace') = after (after fs trace) trace' := List.foldl_append

/-- The last reading is that of the files after the run. -/
theorem after_mem_readings (path : List Byte) (fs : Files) (trace : Trace) :
    (after fs trace).contents path ∈ readings path fs trace := by
  induction trace generalizing fs with
  | nil => exact List.mem_cons_self
  | cons call trace ih => exact List.mem_cons_of_mem _ (ih (fs.step call))

/-- What a reader sees during two runs of calls it sees during one of them. -/
theorem mem_readings_append {path : List Byte} {fs : Files} {trace trace' : Trace}
    {c : Option (List Byte)} :
    c ∈ readings path fs (trace ++ trace') ↔
      c ∈ readings path fs trace ∨ c ∈ readings path (after fs trace) trace' := by
  induction trace generalizing fs with
  | nil =>
    have hfirst : c = fs.contents path → c ∈ readings path fs trace' := by
      rintro rfl
      cases trace' with
      | nil => exact List.mem_cons_self
      | cons call trace' => exact List.mem_cons_self
    refine ⟨Or.inr, fun h => h.elim (fun h => hfirst (List.mem_singleton.1 h)) id⟩
  | cons call trace ih =>
    rw [List.cons_append, readings, readings, List.mem_cons, List.mem_cons, ih, or_assoc]
    rfl

/-- What a run of `writeFile` does: it replaces the file by what was written, or leaves it; and
leaves every other file but the one that is written first. -/
structure Effect (path data : List Byte) (trace : Trace) (replaced : Option (List Byte)) : Prop where
  replacements : ∀ rest, replacements (trace ++ rest) =
    (replaced.map fun written => ⟨path, data, written⟩).toList ++ replacements rest
  seen : ∀ fs, ∀ c ∈ readings path fs trace, c = fs.contents path ∨ ∃ w, replaced = some w ∧ c = some w
  put : ∀ fs, ∀ w ∈ replaced, some w ∈ readings path fs trace
  others : ∀ fs q, q ≠ path → q ≠ tempPath path → ∀ c ∈ readings q fs trace, c = fs.contents q

/-- The calls of `writeFile`, with the printed lines left open. -/
theorem writeFile_runs {path data : List Byte} {trace : Trace}
    (h : (writeFile path data).Runs trace ()) :
    (∃ a line b, a.value = fail ∧
        trace = [(.openFile (tempPath path) 577 420, a), (.print line, b)]) ∨
      ∃ a b c d rest, a.value ≠ fail ∧
        trace = (.openFile (tempPath path) 577 420, a) :: (.write a.value data, b) ::
          (.close a.value, c) :: (.rename (tempPath path) path, d) :: rest ∧
        (syscallFailed d.value = true ∧ (∃ line e, rest = [(.print line, e)]) ∨
          syscallFailed d.value = false ∧ rest = []) := by
  unfold writeFile at h
  dsimp only at h
  obtain ⟨a, rest, rfl, hopen⟩ := Prog.runs_call.1 h
  split at hopen
  · next hfail =>
    obtain ⟨b, rest, rfl, hprint⟩ := Prog.runs_call.1 hopen
    obtain ⟨rfl, -⟩ := Prog.runs_done.1 hprint
    exact Or.inl ⟨a, _, b, hfail, rfl⟩
  · next hok =>
    obtain ⟨b, rest, rfl, hwrite⟩ := Prog.runs_call.1 hopen
    obtain ⟨c, rest, rfl, hclose⟩ := Prog.runs_call.1 hwrite
    obtain ⟨d, rest, rfl, hrename⟩ := Prog.runs_call.1 hclose
    refine Or.inr ⟨a, b, c, d, rest, hok, rfl, ?_⟩
    split at hrename
    · next hfail =>
      obtain ⟨e, rest, rfl, hprint⟩ := Prog.runs_call.1 hrename
      obtain ⟨rfl, -⟩ := Prog.runs_done.1 hprint
      exact Or.inl ⟨hfail, _, e, rfl⟩
    · next hrenamed =>
      exact Or.inr ⟨Bool.eq_false_iff.2 hrenamed, (Prog.runs_done.1 hrename).1⟩

/-- Every run replaces the file at most once, with what was stored of its text. -/
theorem writeFile_effect {path data : List Byte} (htemp : path ≠ tempPath path) {trace : Trace}
    (h : (writeFile path data).Runs trace ()) : ∃ replaced, Effect path data trace replaced := by
  rcases writeFile_runs h with ⟨a, line, b, hfail, rfl⟩ |
    ⟨a, b, c, d, rest, hopen, rfl, ⟨hfail, line, e, rfl⟩ | ⟨hrenamed, rfl⟩⟩
  · -- Nothing is opened.
    refine ⟨none, fun rest => by simp [replacements], fun fs c hc => Or.inl ?_,
      fun fs w hw => absurd hw (by simp), fun fs q hq hqt c hc => ?_⟩
    · simpa [readings, Files.step, hfail] using hc
    · simpa [readings, Files.step, hfail] using hc
  · -- Only the file that is written first changes.
    refine ⟨none, fun rest => by simp [replacements, hfail], fun fs c hc => Or.inl ?_,
      fun fs w hw => absurd hw (by simp), fun fs q hq hqt c hc => ?_⟩
    · simpa [readings, Files.step, hfail, hopen, htemp] using hc
    · simpa [readings, Files.step, hfail, hopen, hqt] using hc
  · refine ⟨some (data.take b.stored), fun rest => by simp [replacements, hrenamed],
      fun fs c hc => ?_, fun fs w hw => ?_, fun fs q hq hqt c hc => ?_⟩
    · have hor : c = fs.contents path ∨ c = some (data.take b.stored) := by
        simpa [readings, Files.step, hrenamed, hopen, htemp] using hc
      exact hor.imp_right fun hc => ⟨_, rfl, hc⟩
    · obtain rfl := Option.some.inj hw
      simp [readings, Files.step, hrenamed, hopen, htemp]
    · simpa [readings, Files.step, hrenamed, hopen, hq, hqt] using hc

/-! ## Both files -/

/-- A reader of the file sees its old contents or this text. -/
def OldOrNew (fs : Files) (trace : Trace) (path text : List Byte) : Prop :=
  ∀ c ∈ readings path fs trace, c = fs.contents path ∨ c = some text

/-- For one file, that is so exactly when what it is replaced by is whole, or nothing new. -/
theorem Effect.oldOrNew_iff {path data : List Byte} {trace : Trace} {replaced : Option (List Byte)}
    (h : Effect path data trace replaced) (fs : Files) :
    OldOrNew fs trace path data ↔
      ∀ w ∈ replaced, w = data ∨ fs.contents path = some w := by
  constructor
  · intro hseen w hw
    rcases hseen _ (h.put fs w hw) with hold | hnew
    · exact Or.inr hold.symm
    · exact Or.inl (Option.some.inj hnew)
  · intro hall c hc
    rcases h.seen fs c hc with hold | ⟨w, hw, rfl⟩
    · exact Or.inl hold
    · exact (hall w hw).symm.imp Eq.symm (congrArg some)

/-- The calls leave this file as it is. -/
def Unchanged (fs : Files) (trace : Trace) (path : List Byte) : Prop :=
  ∀ c ∈ readings path fs trace, c = fs.contents path

/-- A file that both runs of calls leave as it is stays so. -/
theorem Unchanged.append {fs : Files} {trace trace' : Trace} {path : List Byte}
    (h : Unchanged fs trace path) (h' : Unchanged (after fs trace) trace' path) :
    Unchanged fs (trace ++ trace') path := by
  have hafter := h _ (after_mem_readings path fs trace)
  intro c hc
  rcases mem_readings_append.1 hc with hc | hc
  · exact h c hc
  · exact (h' c hc).trans hafter

/-- Calls that leave the file, before or after others. -/
theorem oldOrNew_append_left {fs : Files} {trace trace' : Trace} {path text : List Byte}
    (h : Unchanged (after fs trace) trace' path) :
    OldOrNew fs (trace ++ trace') path text ↔ OldOrNew fs trace path text := by
  refine ⟨fun hseen c hc => hseen c (mem_readings_append.2 (Or.inl hc)), fun hseen c hc => ?_⟩
  rcases mem_readings_append.1 hc with hc | hc
  · exact hseen c hc
  · rw [h c hc]
    exact hseen _ (after_mem_readings path fs trace)

/-- Calls before that leave the file as it is do not matter. -/
theorem oldOrNew_append_right {fs : Files} {trace trace' : Trace} {path text : List Byte}
    (h : Unchanged fs trace path) :
    OldOrNew fs (trace ++ trace') path text ↔ OldOrNew (after fs trace) trace' path text := by
  have hafter := h _ (after_mem_readings path fs trace)
  unfold OldOrNew
  rw [hafter]
  refine ⟨fun hseen c hc => hseen c (mem_readings_append.2 (Or.inr hc)), fun hseen c hc => ?_⟩
  rcases mem_readings_append.1 hc with hc | hc
  · exact Or.inl (h c hc)
  · exact hseen c hc

/-- Printing leaves every file. -/
theorem unchanged_print (fs : Files) (text : List Byte) (a : Answer) (path : List Byte) :
    Unchanged fs [(.print text, a)] path := by
  intro c hc
  simpa [readings, Files.step] using hc

/-- In every run of `apply_config` from any files: a reader of the two files sees the old contents
or the complete new ones at every moment, exactly when every file that is renamed into place has
been written whole, or with what the file held before. -/
theorem applyConfig_atomic_iff {config : NetConfig} {fs : Files} {trace : Trace}
    (h : (applyConfig config).Runs trace ()) :
    OldOrNew fs trace resolvConfPath (resolvText config) ∧
        OldOrNew fs trace hostsPath (hostsText config) ↔
      ∀ r ∈ replacements trace, r.written = r.data ∨ fs.contents r.path = some r.written := by
  unfold applyConfig at h
  obtain ⟨first, rest, ⟨⟩, rfl, hresolv, hrest⟩ := Prog.runs_bind.1 h
  obtain ⟨second, last, ⟨⟩, rfl, hhosts, hlast⟩ := Prog.runs_bind.1 hrest
  obtain ⟨a, tail, rfl, hdone⟩ := Prog.runs_call.1 hlast
  obtain ⟨rfl, -⟩ := Prog.runs_done.1 hdone
  rw [resolv_eq] at hresolv
  rw [hosts_eq] at hhosts
  obtain ⟨out, heffect⟩ := writeFile_effect (by decide) hresolv
  obtain ⟨out', heffect'⟩ := writeFile_effect (by decide) hhosts
  have hfirst : Unchanged fs first hostsPath := heffect.others fs _ (by decide) (by decide)
  have hprint := unchanged_print (after (after fs first) second) (summary config) a
  have hsecond : Unchanged (after fs first) (second ++ [(.print (summary config), a)])
      resolvConfPath := by
    have hother : Unchanged (after fs first) second resolvConfPath :=
      heffect'.others _ _ (by decide) (by decide)
    exact hother.append (hprint resolvConfPath)
  have hcontents : (after fs first).contents hostsPath = fs.contents hostsPath :=
    hfirst _ (after_mem_readings hostsPath fs first)
  have hnone : replacements [(.print (summary config), a)] = [] := rfl
  rw [oldOrNew_append_left hsecond, oldOrNew_append_right hfirst,
    oldOrNew_append_left (hprint hostsPath), heffect.oldOrNew_iff, heffect'.oldOrNew_iff, hcontents,
    heffect.replacements, heffect'.replacements, hnone, List.append_nil, List.forall_mem_append]
  simp

/-- The calls that write a file with `stored` bytes reaching it and rename it into place. -/
def replacing (path data : List Byte) (stored : ℕ) : Trace :=
  [(.openFile (tempPath path) 577 420, ⟨3, 0⟩), (.write 3 data, ⟨stored, stored⟩), (.close 3, ⟨0, 0⟩),
    (.rename (tempPath path) path, ⟨0, 0⟩)]

/-- These calls are a run of `write_file`. -/
theorem replacing_runs (path data : List Byte) (stored : ℕ) :
    (writeFile path data).Runs (replacing path data stored) () :=
  .call _ _ (.call _ _ (.call _ _ (.call _ _ (.done _))))

/-- A leased address, 10.0.2.15, with one name server. -/
def leased : NetConfig := ⟨3, 0x0F02000A, 0x0202000A, [0x0302000A, 0, 0], 1, [], rfl, by decide⟩

/-- The disk is full after `/etc/resolv.conf`: nothing of `/etc/hosts` can be written. -/
def diskFull : Trace :=
  replacing resolvConfPath (resolv leased) 20 ++
    (replacing hostsPath (hosts leased) 0 ++ [(.print (summary leased), ⟨0, 0⟩)])

/-- These calls are a run of `apply_config`. -/
theorem diskFull_runs : (applyConfig leased).Runs diskFull () :=
  Prog.runs_bind.2 ⟨_, _, (), rfl, replacing_runs _ _ _,
    Prog.runs_bind.2 ⟨_, _, (), rfl, replacing_runs _ _ _, .call _ _ (.done _)⟩⟩

/-- Both files are there. -/
def bothFiles : Files := ⟨fun _ => some (ascii "127.0.0.1\tlocalhost\n"), fun _ => none⟩

/-- Then `/etc/hosts` is empty. -/
theorem applyConfig_empties :
    (applyConfig leased).Runs diskFull () ∧
      (after bothFiles diskFull).contents hostsPath = some [] ∧
      ¬OldOrNew bothFiles diskFull hostsPath (hostsText leased) := by
  have hempty : (after bothFiles diskFull).contents hostsPath = some [] := by decide +kernel
  refine ⟨diskFull_runs, hempty, fun h => ?_⟩
  have hseen := h _ (hempty ▸ after_mem_readings hostsPath bothFiles diskFull)
  exact absurd hseen (by decide +kernel)

/-- One of the two files is then neither the old one nor the new one. -/
theorem applyConfig_atomic_iff_diskFull :
    (applyConfig leased).Runs diskFull () ∧
      ¬(OldOrNew bothFiles diskFull resolvConfPath (resolvText leased) ∧
        OldOrNew bothFiles diskFull hostsPath (hostsText leased)) := by
  refine ⟨diskFull_runs, fun h => ?_⟩
  have hwhole := (applyConfig_atomic_iff diskFull_runs).1 h
  exact absurd hwhole (by decide +kernel)

end IUserApps.NetworkManager
