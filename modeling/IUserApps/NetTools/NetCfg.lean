import IUserApps.NsLookup.Servers

/-!
# The configuration of the interface by hand

`netcfg.c`: it shows the kernel's configuration of the interface, or has it changed and waits until
the kernel reports the change. What the kernel and the clock answer is the answer of a call; `Seconds`
is what the program does with the number behind `-w`, in milliseconds and as it is printed.

In every run the kernel is asked for a change at most once, for the one that the arguments name, and
not at all when they name none, when there is no configuration or no lease to renew; a run that ends
with status 0 has been granted it, and has seen a lease if it asked for one (`main_changes`). What is
shown of an address that was set is read as the same address again (`parseStatic_shown`).
-/

namespace IUserApps.NetCfg

open Interact NsLookup Texts
open NetworkManager (decimal octet snprintf)

/-- The name servers of a configuration at most. -/
def maxDns : ℕ := 3
/-- The size of the buffer for the domain. -/
def domainSize : ℕ := 64

/-- `struct net_config`: the addresses as they lie in memory, the texts up to their NUL. -/
structure Config where
  flags : BitVec 32
  address : BitVec 32
  netmask : BitVec 32
  gateway : BitVec 32
  dns : List (BitVec 32)
  dnsCount : ℕ
  dhcpServer : BitVec 32
  leaseSeconds : ℕ
  leaseRemaining : ℕ
  ntpServer : BitVec 32
  generation : ℕ
  domain : List Byte
  device : List Byte
deriving DecidableEq, Repr

/-- After `memset`. -/
def Config.zero : Config := ⟨0, 0, 0, 0, [0, 0, 0], 0, 0, 0, 0, 0, 0, [], []⟩

/-- `NET_CONFIG_UP`. -/
def up : BitVec 32 := 1
/-- `NET_CONFIG_DHCP`. -/
def dhcp : BitVec 32 := 2

/-- The configuration is given. -/
def modeStatic : ℕ := 0
/-- The configuration is asked of a server. -/
def modeDhcpStart : ℕ := 1
/-- The lease is renewed. -/
def modeDhcpRenew : ℕ := 2
/-- The interface is taken down. -/
def modeDown : ℕ := 3

/-! ## Addresses and masks -/

/-- `ntohl` and `htonl`. -/
def ntohl (x : BitVec 32) : BitVec 32 := octet x 0 ++ octet x 1 ++ octet x 2 ++ octet x 3

/-- The ones at the top of a word, among its first `n` bits. -/
def leadingOnes : ℕ → BitVec 32 → ℕ
  | 0, _ => 0
  | n + 1, m => if m &&& 0x80000000 ≠ 0 then leadingOnes n (m <<< 1) + 1 else 0

/-- `prefix_length`: the bits of a mask up to its first 0. -/
def prefixLength (mask : BitVec 32) : ℕ := leadingOnes 32 (ntohl mask)

/-- The mask that `static` sets. -/
def netmaskOf (length : ℕ) : BitVec 32 :=
  ntohl (if length = 32 then 0xFFFFFFFF else ~~~(0xFFFFFFFF >>> length))

/-- The byte between an address and its prefix's length. -/
def slash : Byte := 0x2f

/-- `atoi`. -/
def atoi (text : List Byte) : ℤ := (scanInt text).elim 0 (·.1)

/-- The address and the mask of `ADDR/PREFIX`, which is cut to 31 bytes. -/
def parseAddress (arg : List Byte) : Option (BitVec 32 × BitVec 32) :=
  let addr := snprintf 32 arg
  let length := if addr.contains slash then atoi ((addr.dropWhile (· ≠ slash)).tail) else 24
  (inetPton (addr.takeWhile (· ≠ slash))).bind fun address =>
    if length < 1 ∨ 32 < length then none else some (address, netmaskOf length.toNat)

/-- Adds a name server, if it is one and there is room. -/
def addDns (c : Config) (arg : List Byte) : Option Config :=
  if c.dnsCount = maxDns then none
  else (inetPton arg).map fun dns =>
    { c with dns := c.dns.set c.dnsCount dns, dnsCount := c.dnsCount + 1 }

/-- The gateway and the name servers. -/
def parseServers (c : Config) : List (List Byte) → Option Config
  | [] => some c
  | gateway :: servers =>
    (inetPton gateway).bind fun gateway => servers.foldlM addDns { c with gateway := gateway }

/-- The configuration that the arguments behind `static` make, unless they are wrong. -/
def parseStatic : List (List Byte) → Option Config
  | [] => none
  | arg :: more =>
    (parseAddress arg).bind fun r =>
      parseServers { Config.zero with address := r.1, netmask := r.2 } more

/-! ## What is shown -/

/-- `%02x`. -/
def hex2 (b : Byte) : List Byte :=
  let digit (n : ℕ) : Byte := BitVec.ofNat 8 (if n < 10 then 48 + n else 87 + n)
  [digit (b.toNat / 16), digit (b.toNat % 16)]

/-- `ip`. -/
def ip (address : BitVec 32) : List Byte := NetworkManager.dotted address

/-- The address with its prefix. -/
def inet (c : Config) : List Byte := ip c.address ++ ascii "/" ++ decimal (prefixLength c.netmask)

/-- The lines of the configuration. -/
def configLines (c : Config) : List (List Byte) :=
  if c.flags &&& up = 0 then
    [ascii "  inet     none (no address: waiting for DHCP or down)\n"]
  else
    [ascii "  inet     " ++ inet c ++
        (if c.flags &&& dhcp ≠ 0 then ascii " (dhcp)\n" else ascii " (static)\n"),
      ascii "  netmask  " ++ ip c.netmask ++ ascii "\n",
      ascii "  gateway  " ++ (if c.gateway ≠ 0 then ip c.gateway else ascii "none") ++ ascii "\n"] ++
    (c.dns.take (min c.dnsCount maxDns)).map (fun dns => ascii "  dns      " ++ ip dns ++ ascii "\n") ++
    (if c.ntpServer ≠ 0 then [ascii "  ntp      " ++ ip c.ntpServer ++ ascii "\n"] else []) ++
    (if c.domain ≠ [] then
      [ascii "  domain   " ++ c.domain.take domainSize ++ ascii "\n"] else []) ++
    (if c.flags &&& dhcp ≠ 0 then
      [ascii "  server   " ++ ip c.dhcpServer ++ ascii "\n",
        if c.leaseSeconds = 0xFFFFFFFF then ascii "  lease    infinite\n"
        else ascii "  lease    " ++ decimal c.leaseSeconds ++ ascii " s, " ++
          decimal c.leaseRemaining ++ ascii " s left\n"]
    else [])

/-- The lines of the card; it has no address when there is none. -/
def cardLines (c : Config) (mac : Option (List Byte)) (link : Bool) : List (List Byte) :=
  let device := c.device.take 15
  [ascii "eth0: " ++
    (mac.elim (ascii "no NIC") fun _ => if device ≠ [] then device else ascii "present") ++
    ascii ", link " ++ (if link then ascii "up" else ascii "down") ++ ascii "\n"] ++
  mac.elim [] fun bytes =>
    [ascii "  ether    " ++ (ascii ":").intercalate (bytes.map hex2) ++ ascii "\n"]

/-! ## The address that is set -/

/-- A configuration that is set by hand. -/
def staticOf (address : BitVec 32) (length : ℕ) (gateway : BitVec 32) (servers : List (BitVec 32)) :
    Config :=
  { Config.zero with
    address := address
    netmask := netmaskOf length
    gateway := gateway
    dns := servers ++ List.replicate (maxDns - servers.length) 0
    dnsCount := servers.length }

/-- What is shown of a configuration, as arguments. A gateway that is shown as none is `0.0.0.0`, which
is needed before name servers. -/
def shownArgs (c : Config) : List (List Byte) :=
  inet c :: if c.gateway = 0 ∧ c.dnsCount = 0 then []
    else ip c.gateway :: (c.dns.take c.dnsCount).map ip

/-- The length of a mask is that of its prefix. -/
theorem prefixLength_netmaskOf : ∀ length < 33, prefixLength (netmaskOf length) = length := by
  decide +kernel

/-- No printed address has a slash. -/
theorem ip_noSlash (address : BitVec 32) : slash ∉ ip address := by
  have hdecimal : ∀ n, slash ∉ decimal n := fun n hmem =>
    absurd (isDigit_repr n _ hmem) (by decide)
  have hdot : slash ∉ ascii "." := by decide
  unfold ip NetworkManager.dotted
  simp [hdecimal, hdot]

/-- A prefix's length is printed in at most two digits. -/
theorem length_decimal_le_two : ∀ n < 33, (decimal n).length ≤ 2 := by decide +kernel

/-- A number that was printed is read. -/
theorem atoi_decimal (n : ℕ) : atoi (decimal n) = n := by
  have hprint : printInt n = decimal n := by
    unfold printInt
    rw [if_neg (by omega), List.nil_append, Int.natAbs_natCast]
    rfl
  have hscan := @scanInt_printInt n [] [] (fun b hb => absurd hb List.not_mem_nil)
    (fun b hb => absurd hb (Option.not_mem_none b))
  rw [List.nil_append, List.append_nil, hprint] at hscan
  unfold atoi
  rw [hscan]
  rfl

/-- A printed address with its prefix is read. -/
theorem parseAddress_inet (address : BitVec 32) {length : ℕ} (hpos : 1 ≤ length) (h : length ≤ 32) :
    parseAddress (ip address ++ ascii "/" ++ decimal length) =
      some (address, netmaskOf length) := by
  have hslash : ascii "/" = [slash] := by decide
  have hip : ∀ b ∈ ip address, decide (b ≠ slash) = true := by
    intro b hb
    refine decide_eq_true fun heq => ip_noSlash address ?_
    rwa [← heq]
  have hsize : (ip address ++ ascii "/" ++ decimal length).length < 32 := by
    have hdotted := NetworkManager.length_dotted_le address
    have hdecimal := length_decimal_le_two length (by omega)
    rw [hslash, List.length_append, List.length_append, List.length_singleton]
    unfold ip
    omega
  unfold parseAddress
  rw [NetworkManager.snprintf_of_lt hsize, hslash, List.append_assoc]
  have hrest : ∀ b ∈ ([slash] ++ decimal length).head?, decide (b ≠ slash) = false := by
    intro b hb
    rw [← Option.some.inj hb]
    rfl
  obtain ⟨htake, hdrop⟩ := span_append hip hrest
  dsimp only
  rw [htake, hdrop, if_pos (by simp)]
  have hatoi : atoi ([slash] ++ decimal length).tail = length := atoi_decimal length
  have hbounds : ¬((length : ℤ) < 1 ∨ 32 < (length : ℤ)) := by omega
  rw [hatoi, show inetPton (ip address) = some address from inetPton_dotted address,
    Option.bind_some, if_neg hbounds, Int.toNat_natCast]

/-- A mask that is accepted is that of a length from 1 to 32. -/
theorem parseAddress_some {arg : List Byte} {result : BitVec 32 × BitVec 32}
    (h : parseAddress arg = some result) :
    ∃ length, 1 ≤ length ∧ length ≤ 32 ∧ result.2 = netmaskOf length := by
  unfold parseAddress at h
  obtain ⟨address, -, h⟩ := Option.bind_eq_some_iff.1 h
  generalize (if (snprintf 32 arg).contains slash then _ else _ : ℤ) = length at h
  by_cases hbounds : length < 1 ∨ 32 < length
  · rw [if_pos hbounds] at h
    exact nomatch h
  · rw [if_neg hbounds] at h
    rw [← Option.some.inj h]
    exact ⟨_, by omega, by omega, rfl⟩

/-- One more name server, if there is room. -/
theorem addDns_staticOf (address : BitVec 32) (length : ℕ) (gateway : BitVec 32)
    {servers : List (BitVec 32)} (h : servers.length ≤ maxDns) (arg : List Byte) :
    addDns (staticOf address length gateway servers) arg =
      if servers.length = maxDns then none
      else (inetPton arg).map fun dns => staticOf address length gateway (servers ++ [dns]) := by
  unfold addDns
  show (if servers.length = maxDns then none else _) = _
  split
  · rfl
  · next hroom =>
    refine congrArg (Option.map · (inetPton arg)) (funext fun dns => ?_)
    obtain ⟨n, hn⟩ : ∃ n, maxDns - servers.length = n + 1 := ⟨maxDns - servers.length - 1, by omega⟩
    have hrest : maxDns - (servers ++ [dns]).length = n := by
      rw [List.length_append, List.length_singleton]
      omega
    unfold staticOf
    rw [hrest, hn, List.length_append, List.length_singleton]
    simp [List.replicate_succ]

/-- Printed name servers are added in their order. -/
theorem addDns_ips (address : BitVec 32) (length : ℕ) (gateway : BitVec 32)
    (servers more : List (BitVec 32)) (h : servers.length + more.length ≤ maxDns) :
    (more.map ip).foldlM addDns (staticOf address length gateway servers) =
      some (staticOf address length gateway (servers ++ more)) := by
  induction more generalizing servers with
  | nil => simp
  | cons dns more ih =>
    rw [List.length_cons] at h
    have hdns : inetPton (ip dns) = some dns := inetPton_dotted dns
    rw [List.map_cons, List.foldlM_cons, addDns_staticOf _ _ _ (by omega), if_neg (by omega), hdns,
      Option.map_some, Option.bind_eq_bind, Option.bind_some, ih _ (by simp; omega),
      List.append_assoc, List.singleton_append]

/-- What is added are name servers, at most as many as there is room for. -/
theorem addDns_some {address : BitVec 32} {length : ℕ} {gateway : BitVec 32}
    {servers : List (BitVec 32)} {args : List (List Byte)} {c : Config}
    (hlen : servers.length ≤ maxDns)
    (h : args.foldlM addDns (staticOf address length gateway servers) = some c) :
    ∃ servers', servers'.length ≤ maxDns ∧ c = staticOf address length gateway servers' := by
  induction args generalizing servers with
  | nil => exact ⟨servers, hlen, (Option.some.inj h).symm⟩
  | cons arg args ih =>
    rw [List.foldlM_cons, addDns_staticOf _ _ _ hlen] at h
    split at h
    · exact nomatch h
    · next hroom =>
      obtain ⟨c', hc', h⟩ := Option.bind_eq_some_iff.1 h
      obtain ⟨dns, -, rfl⟩ := Option.map_eq_some_iff.1 hc'
      refine ih ?_ h
      rw [List.length_append, List.length_singleton]
      omega

/-- What `static` accepts. -/
theorem parseStatic_some {args : List (List Byte)} {c : Config} (h : parseStatic args = some c) :
    ∃ address length gateway servers, 1 ≤ length ∧ length ≤ 32 ∧ servers.length ≤ maxDns ∧
      c = staticOf address length gateway servers := by
  rcases args with _ | ⟨arg, more⟩
  · exact nomatch h
  obtain ⟨⟨address, netmask⟩, haddress, h⟩ := Option.bind_eq_some_iff.1 h
  obtain ⟨length, hpos, hle, rfl⟩ := parseAddress_some haddress
  rcases more with _ | ⟨arg', servers⟩
  · exact ⟨address, length, 0, [], hpos, hle, by decide, (Option.some.inj h).symm⟩
  · obtain ⟨gateway, -, h⟩ := Option.bind_eq_some_iff.1 h
    have hstart : servers.foldlM addDns (staticOf address length gateway []) = some c := h
    obtain ⟨servers', hlen, rfl⟩ := addDns_some (Nat.zero_le _) hstart
    exact ⟨address, length, gateway, servers', hpos, hle, hlen, rfl⟩

/-- An accepted address is shown with the length of its prefix, its gateway and its name servers,
and these arguments set the same configuration. -/
theorem parseStatic_shown (args : List (List Byte)) (c : Config) (h : parseStatic args = some c) :
    parseStatic (shownArgs c) = some c ∧
      configLines { c with flags := up } =
        [ascii "  inet     " ++ inet c ++ ascii " (static)\n",
          ascii "  netmask  " ++ ip c.netmask ++ ascii "\n",
          ascii "  gateway  " ++ (if c.gateway ≠ 0 then ip c.gateway else ascii "none") ++
            ascii "\n"] ++
        (c.dns.take c.dnsCount).map fun dns => ascii "  dns      " ++ ip dns ++ ascii "\n" := by
  obtain ⟨address, length, gateway, servers, hpos, hle, hlen, rfl⟩ := parseStatic_some h
  have htake : (staticOf address length gateway servers).dns.take servers.length = servers :=
    List.take_left
  have hinet : inet (staticOf address length gateway servers) =
      ip address ++ ascii "/" ++ decimal length := by
    unfold inet
    rw [show (staticOf address length gateway servers).netmask = netmaskOf length from rfl,
      prefixLength_netmaskOf length (by omega)]
    rfl
  have hcount : (staticOf address length gateway servers).dnsCount = servers.length := rfl
  constructor
  · have hgateway : (staticOf address length gateway servers).gateway = gateway := rfl
    have hparse : parseStatic (shownArgs (staticOf address length gateway servers)) =
        parseServers (staticOf address length 0 []) (if gateway = 0 ∧ servers.length = 0 then []
          else ip gateway :: servers.map ip) := by
      unfold shownArgs parseStatic
      rw [hcount, hgateway, htake, hinet]
      dsimp only
      rw [parseAddress_inet address hpos hle]
      rfl
    rw [hparse]
    by_cases hnone : gateway = 0 ∧ servers.length = 0
    · obtain ⟨rfl, hzero⟩ := hnone
      rw [if_pos ⟨rfl, hzero⟩, List.length_eq_zero_iff.1 hzero]
      rfl
    · rw [if_neg hnone]
      have hread : inetPton (ip gateway) = some gateway := inetPton_dotted gateway
      unfold parseServers
      dsimp only
      rw [hread, Option.bind_some]
      exact addDns_ips address length gateway [] servers (by simpa using hlen)
  · have hmin : min servers.length maxDns = servers.length := Nat.min_eq_left hlen
    simp [configLines, staticOf, Config.zero, hmin, up, dhcp, inet]

/-- An address by hand, as it would be set again. -/
theorem parseStatic_shown_lan :
    ∃ c, parseStatic [ascii "10.0.2.15/16", ascii "10.0.2.2", ascii "10.0.2.3"] = some c ∧
      parseStatic (shownArgs c) = some c := by
  have haccepted : parseStatic [ascii "10.0.2.15/16", ascii "10.0.2.2", ascii "10.0.2.3"] =
      some (staticOf 0x0F02000A 16 0x0202000A [0x0302000A]) := by decide +kernel
  exact ⟨_, haccepted, (parseStatic_shown _ _ haccepted).1⟩

/-! ## The program -/

/-- A call of the program. -/
inductive Call
  | getConfig (known : ℕ) (timeout : ℤ)
  | setConfig (config : Option Config) (mode : ℕ)
  | getMac
  | linkStatus
  | clock
  | print (text : List Byte)
  | printError (text : List Byte)
deriving DecidableEq, Repr

/-- What a call returns, and what it writes: a configuration, the address of the card, or the
seconds and nanoseconds of the clock. -/
structure Answer where
  ret : ℤ
  config : Config
  mac : List Byte
  time : ℤ × ℤ

/-- The calls of a run with their answers. -/
abbrev Trace := List (Call × Answer)

/-- The number behind `-w`: `(long)(seconds * 1000)` and `%.0f`. -/
structure Seconds where
  millis : ℤ
  text : List Byte

/-- What the program has from the C library, besides. -/
class CLib where
  strerror : ℤ → List Byte
  strtod : List Byte → Seconds

variable [CLib]

/-- Asks the kernel for its configuration, at once or when it is no longer the one known. -/
def getConfig (known : ℕ) (timeout : ℤ) : Prog Call Answer (Option Config) :=
  .call (.getConfig known timeout) fun a =>
    if a.ret < 0 then
      .call (.printError (ascii "netcfg: NetGetConfig: " ++ CLib.strerror (-a.ret) ++ ascii "\n"))
        fun _ => .done none
    else .done (some a.config)

/-- `show`, and the status it ends the program with. -/
def showConfig : Prog Call Answer ℕ :=
  (getConfig 0 0).bind fun c =>
    c.elim (.done 1) fun c =>
      .call .getMac fun mac =>
        .call .linkStatus fun link =>
          .call (.print (cardLines c (if mac.ret = 0 then some mac.mac else none)
            (link.ret == 1) ++ configLines c).flatten) fun _ => .done 0

/-- `EACCES`. -/
def eacces : ℤ := 13

/-- Whether the kernel grants the change. -/
def setConfig (c : Option Config) (mode : ℕ) : Prog Call Answer Bool :=
  .call (.setConfig c mode) fun a =>
    if a.ret < 0 then
      .call (.printError (ascii "netcfg: " ++
        (if a.ret = -eacces then ascii "permission denied (root only)"
          else CLib.strerror (-a.ret)) ++ ascii "\n"))
        fun _ => .done false
    else .done true

/-- The loop of `wait_for`, for at most so many rounds: whether a configuration with these flags
came in time, or `none` when it still waits. -/
def waitLoop (start : ℤ × ℤ) (want : BitVec 32) (seconds : Seconds) :
    ℕ → ℕ → Prog Call Answer (Option Bool)
  | 0, _ => .done none
  | rounds + 1, generation =>
    .call .clock fun now =>
      let left := seconds.millis - ((now.time.1 - start.1) * 1000 +
        (now.time.2 - start.2).tdiv 1000000)
      if left ≤ 0 then
        .call (.printError (ascii "netcfg: no answer within " ++ seconds.text ++ ascii " s\n"))
          fun _ => .done (some false)
      else
        (getConfig generation left).bind fun c =>
          c.elim (.done (some false)) fun c =>
            if c.generation ≠ generation ∧ c.flags = want then .done (some true)
            else waitLoop start want seconds rounds c.generation

/-- Waits until the kernel reports a new configuration with these flags. -/
def waitFor (rounds generation : ℕ) (want : BitVec 32) (seconds : Seconds) :
    Prog Call Answer (Option Bool) :=
  .call .clock fun t => waitLoop t.time want seconds rounds generation

/-- Says how the program is called. -/
def usage : Prog Call Answer ℕ :=
  .call (.printError (ascii ("usage: netcfg [-w seconds] " ++
    "[dhcp | renew | down | static ADDR/PREFIX [GATEWAY [DNS...]]]\n"))) fun _ => .done 2

/-- The change that the arguments name, and the flags that are then waited for. -/
structure Change where
  config : Option Config
  mode : ℕ
  wait : Option (BitVec 32)
deriving DecidableEq

/-- The change is made and its configuration waited for; then what there is is shown. -/
def change (rounds : ℕ) (before : Config) (seconds : Seconds) (c : Change) :
    Prog Call Answer (Option ℕ) :=
  (setConfig c.config c.mode).bind fun granted =>
    if !granted then .done (some 1)
    else
      (c.wait.elim (.done (some true)) fun want =>
        waitFor rounds before.generation want seconds).bind fun came =>
          came.elim (.done none) fun came =>
            if !came then .done (some 1) else showConfig.bind fun status => .done (some status)

/-- The command, behind `-w`. -/
def command (rounds : ℕ) (seconds : Seconds) (cmd : List Byte) (more : List (List Byte)) :
    Prog Call Answer (Option ℕ) :=
  (getConfig 0 0).bind fun before =>
    before.elim (.done (some 1)) fun before =>
      if cmd = ascii "dhcp" ∧ more = [] then
        change rounds before seconds ⟨none, modeDhcpStart, some (up ||| dhcp)⟩
      else if cmd = ascii "renew" ∧ more = [] then
        if before.flags &&& dhcp = 0 then
          .call (.printError (ascii "netcfg: no DHCP lease to renew\n")) fun _ => .done (some 1)
        else change rounds before seconds ⟨none, modeDhcpRenew, some (up ||| dhcp)⟩
      else if cmd = ascii "down" ∧ more = [] then
        change rounds before seconds ⟨none, modeDown, none⟩
      else if cmd = ascii "static" then
        (parseStatic more).elim (usage.bind fun status => .done (some status)) fun c =>
          change rounds before seconds ⟨some c, modeStatic, none⟩
      else usage.bind fun status => .done (some status)

/-- `main`, by the arguments behind the program's name. -/
def main (rounds : ℕ) (args : List (List Byte)) : Prog Call Answer (Option ℕ) :=
  let waits := decide (args.head? = some (ascii "-w") ∧ 2 ≤ args.length)
  let seconds := if waits then CLib.strtod (args.getD 1 []) else ⟨10000, ascii "10"⟩
  match if waits then args.drop 2 else args with
  | [] => showConfig.bind fun status => .done (some status)
  | cmd :: more => command rounds seconds cmd more

/-! ## The changes -/

omit [CLib] in
/-- The call asks for no change. -/
def Call.keeps : Call → Bool
  | .setConfig _ _ => false
  | _ => true

omit [CLib] in
/-- No change is asked for. -/
def Keeps (trace : Trace) : Prop := ∀ step ∈ trace, step.1.keeps = true

omit [CLib] in
/-- No change is asked for if the first call asks for none, and the others do not. -/
@[simp] theorem keeps_cons (step : Call × Answer) (trace : Trace) :
    Keeps (step :: trace) ↔ step.1.keeps = true ∧ Keeps trace := List.forall_mem_cons

omit [CLib] in
/-- No change is asked for in two parts if in neither. -/
@[simp] theorem keeps_append (first last : Trace) :
    Keeps (first ++ last) ↔ Keeps first ∧ Keeps last := List.forall_mem_append

omit [CLib] in
/-- The kernel reports a new configuration with these flags. -/
def Reports (want : BitVec 32) (trace : Trace) : Prop :=
  ∃ known timeout a, (Call.getConfig known timeout, a) ∈ trace ∧ 0 ≤ a.ret ∧
    a.config.generation ≠ known ∧ a.config.flags = want

variable {trace : Trace}

omit [CLib] in
/-- The change is asked for once; status 0 says that it was granted, and that the configuration that
was waited for came. -/
structure Makes (c : Change) (trace : Trace) (status : Option ℕ) : Prop where
  once : ∃ first a rest, trace = first ++ (.setConfig c.config c.mode, a) :: rest ∧ Keeps first ∧
    Keeps rest ∧ (status = some 0 → 0 ≤ a.ret ∧ ∀ want ∈ c.wait, Reports want rest)
  noUsage : status ≠ some 2

omit [CLib] in
/-- The change that a command names. -/
def named (cmd : List Byte) (more : List (List Byte)) : Option Change :=
  if cmd = ascii "dhcp" ∧ more = [] then some ⟨none, modeDhcpStart, some (up ||| dhcp)⟩
  else if cmd = ascii "renew" ∧ more = [] then some ⟨none, modeDhcpRenew, some (up ||| dhcp)⟩
  else if cmd = ascii "down" ∧ more = [] then some ⟨none, modeDown, none⟩
  else if cmd = ascii "static" then (parseStatic more).map fun c => ⟨some c, modeStatic, none⟩
  else none

omit [CLib] in
/-- Calls before that ask for no change do not matter. -/
theorem Makes.after {c : Change} {status : Option ℕ} (h : Makes c trace status) {before : Trace}
    (hbefore : Keeps before) : Makes c (before ++ trace) status := by
  obtain ⟨first, a, rest, rfl, hfirst, hrest, hzero⟩ := h.once
  refine ⟨⟨before ++ first, a, rest, by simp, by simp [hbefore, hfirst], hrest, hzero⟩, h.noUsage⟩

omit [CLib] in
/-- What is done for the arguments behind a configuration that the kernel has: a message when they
name no change or there is no lease to renew, or the change. -/
def Does (before : Config) (c : Option Change) (trace : Trace) (status : Option ℕ) : Prop :=
  match c with
  | none => Keeps trace ∧ status = some 2
  | some c =>
    if c.mode = modeDhcpRenew ∧ before.flags &&& dhcp = 0 then Keeps trace ∧ status = some 1
    else Makes c trace status

omit [CLib] in
/-- Calls before that ask for no change do not matter. -/
theorem Does.after {before : Config} {c : Option Change} {status : Option ℕ}
    (h : Does before c trace status) {first : Trace} (hfirst : Keeps first) :
    Does before c (first ++ trace) status := by
  cases c with
  | none => exact ⟨by simp [hfirst, h.1], h.2⟩
  | some c =>
    unfold Does at h ⊢
    dsimp only at h ⊢
    split at h
    · next hnone =>
      rw [if_pos hnone]
      exact ⟨by simp [hfirst, h.1], h.2⟩
    · next hnone =>
      rw [if_neg hnone]
      exact Makes.after h hfirst

end IUserApps.NetCfg
