import IUserApps.NetworkManager
import IUserApps.Texts

/-!
# The default name server

`default_server` of `nslookup.c` takes the first address that a `nameserver` line of
`/etc/resolv.conf` names, and the network manager writes that file. What the one writes the other
reads: the first name server of the interface's configuration, when the domain has no newline
(`defaultServer_resolv`). A domain with a newline has its own lines read first.
-/

namespace IUserApps.NsLookup

open NetworkManager Texts

/-- A part of a NetworkManager.dotted address: one to three digits, up to 255. -/
def octetOf (part : List Byte) : Option Byte :=
  if part ≠ [] ∧ part.length ≤ 3 ∧ part.all isDigit = true ∧ value part ≤ 255 then
    some (BitVec.ofNat 8 (value part))
  else none

/-- The address that has its bytes in this order in memory. -/
def addressOf : List Byte → Option (BitVec 32)
  | [a, b, c, d] => some (d ++ c ++ b ++ a)
  | _ => none

/-- `inet_pton` of an IPv4 address. -/
def inetPton (text : List Byte) : Option (BitVec 32) :=
  ((text.splitOn 46).mapM octetOf).bind addressOf

/-- The `sscanf` of a line: the word behind `nameserver`, up to 63 bytes of it. -/
def scanServer (line : List Byte) : Option (List Byte) :=
  let text := skipSpace line
  if (ascii "nameserver").isPrefixOf text then
    let addr := (word (skipSpace (text.drop 10))).take 63
    if addr = [] then none else some addr
  else none

/-- The server that a line names. -/
def serverOf (line : List Byte) : Option (BitVec 32) := (scanServer (cstr line)).bind inetPton

/-- `default_server`, for the contents of `/etc/resolv.conf`. -/
def defaultServer (conf : List Byte) : Option (BitVec 32) := (lines 256 conf).findSome? serverOf

/-! ## Addresses -/

/-- The octets of an address make it up. -/
theorem addressOf_octets (address : BitVec 32) :
    addressOf [octet address 0, octet address 1, octet address 2, octet address 3] =
      some address := by
  refine congrArg some (BitVec.eq_of_getLsbD_eq fun i hi => ?_)
  simp only [octet, BitVec.getLsbD_append, BitVec.getLsbD_extractLsb']
  split_ifs
  all_goals
    rw [decide_eq_true (by omega), Bool.true_and]
    exact congrArg address.getLsbD (by omega)

/-- A byte that was printed is read. -/
theorem octetOf_decimal : ∀ b : Byte, octetOf (decimal b.toNat) = some b := by decide +kernel

/-- No printed number has a dot. -/
theorem decimal_noDot (n : ℕ) : (46 : Byte) ∉ decimal n := by
  intro hmem
  exact absurd (isDigit_repr n _ hmem) (by decide)

/-- An address that was printed is read. -/
theorem inetPton_dotted (address : BitVec 32) :
    inetPton (NetworkManager.dotted address) = some address := by
  have hsplit : (NetworkManager.dotted address).splitOn 46 = [decimal (octet address 0).toNat,
      decimal (octet address 1).toNat, decimal (octet address 2).toNat,
      decimal (octet address 3).toNat] := by
    have hdot : NetworkManager.dotted address =
        [(46 : Byte)].intercalate [decimal (octet address 0).toNat,
          decimal (octet address 1).toNat, decimal (octet address 2).toNat,
          decimal (octet address 3).toNat] := by
      simp [NetworkManager.dotted, List.intercalate, ascii]
    rw [hdot, List.splitOn_intercalate 46 ?_ (List.cons_ne_nil _ _)]
    simp only [List.forall_mem_cons]
    exact ⟨decimal_noDot _, decimal_noDot _, decimal_noDot _, decimal_noDot _,
      fun l hl => absurd hl List.not_mem_nil⟩
  unfold inetPton
  rw [hsplit]
  simp [octetOf_decimal, addressOf_octets]

/-! ## Lines -/

/-- A printed address has no byte that a word ends at, and fits a word. -/
theorem dotted_word (address : BitVec 32) :
    (∀ b ∈ NetworkManager.dotted address, isSpace b = false ∧ b ≠ newline ∧ b ≠ 0) ∧
      0 < (NetworkManager.dotted address).length ∧ (NetworkManager.dotted address).length ≤ 15 := by
  have hdecimal : ∀ n, ∀ c ∈ decimal n, isSpace c = false ∧ c ≠ newline ∧ c ≠ 0 := by
    intro n c hc
    obtain ⟨hspace, -, htext⟩ := isDigit_ne (isDigit_repr n c hc)
    exact ⟨hspace, htext⟩
  have hdot : ∀ c ∈ ascii ".", isSpace c = false ∧ c ≠ newline ∧ c ≠ 0 := by decide
  refine ⟨?_, ?_, length_dotted_le address⟩
  · unfold NetworkManager.dotted
    simp only [List.forall_mem_append]
    exact ⟨⟨⟨⟨⟨⟨hdecimal _, hdot⟩, hdecimal _⟩, hdot⟩, hdecimal _⟩, hdot⟩, hdecimal _⟩
  · have hpos : 0 < (decimal (octet address 0).toNat).length :=
      List.length_pos_iff.2 (repr_ne_nil _)
    unfold NetworkManager.dotted
    simp only [List.length_append]
    omega

/-- The line of a server, but for its newline. -/
def serverLine (address : BitVec 32) : List Byte :=
  ascii "nameserver " ++ NetworkManager.dotted address

/-- A name server's line fits the resolver's buffer. -/
theorem serverLine_isLine (address : BitVec 32) :
    newline ∉ serverLine address ∧ (serverLine address).length + 1 < 256 := by
  obtain ⟨hbytes, -, hlen⟩ := dotted_word address
  have hstart : newline ∉ ascii "nameserver " := by decide
  have hlen' : (ascii "nameserver ").length = 11 := rfl
  unfold serverLine
  refine ⟨fun hmem => ?_, by rw [List.length_append]; omega⟩
  rcases List.mem_append.1 hmem with h | h
  · exact hstart h
  · exact (hbytes _ h).2.1 rfl

/-- The word behind `nameserver`. -/
theorem scanServer_word {addr : List Byte} (hspace : ∀ b ∈ addr, isSpace b = false)
    (hpos : 0 < addr.length) (hlen : addr.length ≤ 63) :
    scanServer (ascii "nameserver " ++ (addr ++ [newline])) = some addr := by
  have hstart : ascii "nameserver " = ascii "nameserver" ++ ascii " " := by decide
  have hname : ascii "nameserver" = 110 :: ascii "ameserver" := by decide
  have hten : (ascii "nameserver").length = 10 := by decide
  have hskip : skipSpace (ascii "nameserver" ++ (ascii " " ++ (addr ++ [newline]))) =
      ascii "nameserver" ++ (ascii " " ++ (addr ++ [newline])) := by
    refine skipSpace_of_head fun b hb => ?_
    rw [hname] at hb
    rw [← Option.some.inj hb]
    rfl
  have hword : word (skipSpace (ascii " " ++ (addr ++ [newline]))) = addr := by
    have hblank : ∀ b ∈ ascii " ", isSpace b = true := by decide
    have hhead : ∀ b ∈ (addr ++ [newline]).head?, isSpace b = false := by
      obtain ⟨b, bs, rfl⟩ := List.exists_cons_of_length_pos hpos
      intro c hc
      rw [← Option.some.inj hc]
      exact hspace b List.mem_cons_self
    have hend : ∀ b ∈ [newline].head?, isSpace b = true := by
      intro b hb
      rw [← Option.some.inj hb]
      rfl
    rw [skipSpace_append hblank, skipSpace_of_head hhead]
    exact (word_append hspace hend).1
  unfold scanServer
  dsimp only
  rw [hstart, List.append_assoc, hskip, if_pos (by simp), List.drop_left' hten, hword,
    List.take_of_length_le hlen, if_neg (List.length_pos_iff.1 hpos)]

/-- The line of a server names it. -/
theorem serverOf_line (address : BitVec 32) :
    serverOf (serverLine address ++ [newline]) = some address := by
  obtain ⟨hbytes, hpos, hlen⟩ := dotted_word address
  have hzero : (0 : Byte) ∉ serverLine address ++ [newline] := by
    have hstart : (0 : Byte) ∉ ascii "nameserver " := by decide
    have hend : (0 : Byte) ∉ [newline] := by decide
    unfold serverLine
    simp only [List.mem_append, not_or]
    exact ⟨⟨hstart, fun hmem => (hbytes _ hmem).2.2 rfl⟩, hend⟩
  unfold serverOf
  rw [cstr_eq hzero]
  unfold serverLine
  rw [List.append_assoc, scanServer_word (fun b hb => (hbytes b hb).1) hpos (by omega),
    Option.bind_some, inetPton_dotted]

/-- A line that does not begin with `nameserver` names no server. -/
theorem serverOf_search (text : List Byte) : serverOf (ascii "search " ++ text) = none := rfl

/-! ## The file -/

/-- The lines of servers name them, in their order. -/
theorem lines_servers (servers : List (BitVec 32)) :
    lines 256 (servers.flatMap fun dns => nameserverLine (NetworkManager.dotted dns)) =
      servers.map fun dns => serverLine dns ++ [newline] := by
  have hline : ∀ dns, nameserverLine (NetworkManager.dotted dns) = serverLine dns ++ [newline] :=
    fun _ => rfl
  have hlines : ∀ l ∈ servers.map serverLine, newline ∉ l ∧ l.length + 1 < 256 := by
    intro l hl
    obtain ⟨dns, -, rfl⟩ := List.mem_map.1 hl
    exact serverLine_isLine dns
  have hread := lines_append hlines []
  have hnone : lines 256 [] = [] := rfl
  rw [hnone, List.append_nil, List.append_nil, List.flatMap_map, List.map_map] at hread
  simp only [hline]
  exact hread

/-- The first of the servers that lines name. -/
theorem findSome_servers (servers : List (BitVec 32)) :
    (servers.map fun dns => serverLine dns ++ [newline]).findSome? serverOf = servers.head? := by
  cases servers with
  | nil => rfl
  | cons dns servers =>
    rw [List.map_cons, List.findSome?_cons, serverOf_line]
    rfl

/-- The lines that a domain is written in. -/
def domainLines (domain : List Byte) : List (List Byte) :=
  if domain ≠ [] then lines 256 (searchLine domain) else []

/-- The lines of the domain are read first, and then those of the servers. -/
theorem lines_resolv (config : NetConfig) :
    lines 256 (resolv config) = domainLines config.domain ++
      (config.dns.take config.dnsCount).map fun dns => serverLine dns ++ [newline] := by
  rw [resolv_eq]
  unfold resolvText domainLines
  split
  · have hdomain : config.domain.length < 64 := config.length_domain
    have hlen : (searchLine config.domain).length ≤ 71 := by
      unfold searchLine
      rw [List.length_append, List.length_append]
      have h7 : (ascii "search ").length = 7 := rfl
      have h1 : (ascii "\n").length = 1 := rfl
      omega
    have hend : (searchLine config.domain).getLast? = some newline := by
      unfold searchLine
      rw [List.getLast?_append]
      rfl
    obtain ⟨ls, hls, hall⟩ := exists_lines _ (Or.inr hend)
    have hfits : ∀ l ∈ ls, newline ∉ l ∧ l.length + 1 < 256 :=
      fun l hl => ⟨(hall l hl).1, by have := (hall l hl).2; omega⟩
    have halone := lines_append hfits []
    have hnone : lines 256 [] = [] := rfl
    rw [hnone, List.append_nil, List.append_nil] at halone
    rw [hls, lines_append hfits, halone, lines_servers]
  · rw [List.nil_append, lines_servers]
    rfl

/-- A domain without a newline has one line, which names no server; one with a newline may name its
own. -/
theorem domainLines_none {domain : List Byte} (h : newline ∉ domain) (hlen : domain.length < 64) :
    (domainLines domain).findSome? serverOf = none := by
  unfold domainLines
  split
  · have hline : searchLine domain = ascii "search " ++ domain ++ newline :: [] := rfl
    have hstart : newline ∉ ascii "search " := by decide
    have h7 : (ascii "search ").length = 7 := rfl
    rw [hline, lines_line (by simp [hstart, h]) (by rw [List.length_append]; omega)]
    rw [List.findSome?_cons, List.append_assoc, serverOf_search]
    rfl
  · rfl

/-- What the network manager writes for a configuration `default_server` reads as its first name
server, when the domain has no newline. Otherwise what the domain's lines name comes first, so that
the domain may choose the server. -/
theorem defaultServer_resolv (config : NetConfig) :
    defaultServer (resolv config) = ((domainLines config.domain).findSome? serverOf).or
        (config.dns.take config.dnsCount).head? ∧
      (newline ∉ config.domain →
        defaultServer (resolv config) = (config.dns.take config.dnsCount).head?) ∧
      ∀ start address, newline ∉ start →
        config.domain = start ++ newline :: serverLine address →
          defaultServer (resolv config) = some address := by
  have hfile : defaultServer (resolv config) = ((domainLines config.domain).findSome? serverOf).or
      (config.dns.take config.dnsCount).head? := by
    unfold defaultServer
    rw [lines_resolv, List.findSome?_append, findSome_servers]
  refine ⟨hfile, fun hdomain => ?_, fun start address hstart hdomain => ?_⟩
  · rw [hfile, domainLines_none hdomain config.length_domain, Option.none_or]
  · have hlen : start.length + (serverLine address).length < 63 := by
      have := config.length_domain
      rw [hdomain, List.length_append, List.length_cons] at this
      have h64 : domainSize = 64 := rfl
      omega
    have hlines : domainLines config.domain =
        [ascii "search " ++ start ++ [newline], serverLine address ++ [newline]] := by
      have hsearch : newline ∉ ascii "search " := by decide
      have h7 : (ascii "search ").length = 7 := rfl
      have hline : searchLine (start ++ newline :: serverLine address) =
          ascii "search " ++ start ++ newline :: (serverLine address ++ newline :: []) := by
        simp [searchLine, ascii, newline]
      unfold domainLines
      rw [hdomain, if_pos (by simp), hline,
        lines_line (by simp [hsearch, hstart]) (by rw [List.length_append]; omega),
        lines_line (serverLine_isLine address).1 (serverLine_isLine address).2]
      rfl
    rw [hfile, hlines, List.findSome?_cons, List.append_assoc, serverOf_search,
      List.findSome?_cons, serverOf_line]
    rfl

/-- The name server of a lease. -/
theorem defaultServer_resolv_leased : defaultServer (resolv leased) = some 0x0302000A :=
  (defaultServer_resolv leased).2.1 (by decide)

end IUserApps.NsLookup
