import CommonsC.Net.Text

/-!
# CommonsC.Net.Hostport

Hosts with ports (`net/hostport/hostport.c`), and when printing and parsing
again gives the same host.

A host is an IP address that `sockaddr_parse` took, or a name of labels.
`hostport_to_string` writes both as `%s:%d`.  That is not the text of an IPv6
address, which has brackets, and a name is read as an address if it can be.
-/

namespace CommonsC.Net

open CString Numeral

/-- `struct hostport`. -/
structure Hostport where
  hostname : Block
  port : UInt16
  addr : Option Sockaddr

/-! ## Names -/

/-- The characters of a label. -/
def isLabelChar (c : UInt8) : Bool :=
  (97 ≤ c && c ≤ 122) || (65 ≤ c && c ≤ 90) || isDigit c || c == 45

/-- What a character of a name does in `find_hostname_end`: `stop` is `break`,
and `reject` is `return NULL`. -/
inductive Scanned
  | seglen (seglen : Nat)
  | stop
  | reject

/-- The body of the loop of `find_hostname_end`. -/
def scanChar (seglen : Nat) (c : UInt8) : Scanned :=
  if c = 46 then if seglen = 0 then .reject else .seglen 0
  else if isLabelChar c then if seglen + 1 > 63 then .reject else .seglen (seglen + 1)
  else .stop

/-- The loop of `find_hostname_end`, with `n` characters behind it: what is
before and after `p`. -/
def scanHostname : (n seglen : Nat) → List UInt8 → Option (List UInt8 × List UInt8)
  | _, _, [] => some ([], [])
  | n, seglen, c :: s =>
      if n < 253 then
        match scanChar seglen c with
        | .seglen seglen => (scanHostname (n + 1) seglen s).map fun (name, p) => (c :: name, p)
        | .stop => some ([], c :: s)
        | .reject => none
      else some ([], c :: s)

/-- `find_hostname_end`: what is before and after the end of the host name;
`none` is `NULL`. -/
def findHostnameEnd (s : List UInt8) : Option (List UInt8 × List UInt8) := scanHostname 0 0 s

/-! ## Hosts -/

/-- The memory after `strncpy` into `size` bytes that are zero. -/
def strncpy (size : Nat) (s : List UInt8) (n : Nat) : Block :=
  s.take n ++ List.replicate (size - (s.take n).length) 0

/-- The memory after a string is written to its front. -/
def overwrite (mem : Block) (s : CString) : Block := s.bytes ++ 0 :: mem.drop (s.strlen + 1)

/-- The port that `hostport_parse` reads behind a host name. -/
def portAfter (p : List UInt8) : Option UInt16 :=
  if p.head? = some 58 then
    let (port, leftover) := strtoul p.tail
    if leftover = p.tail then none else some (.ofNat port)
  else if p = [] then some 0
  else none

theorem eq_nil_or_colon {p : List UInt8} {port : UInt16} (h : portAfter p = some port) :
    p = [] ∨ p.head? = some 58 := by
  rw [portAfter] at h
  split at h
  · next hcolon => exact .inr hcolon
  · split at h
    · next hnil => exact .inl hnil
    · cases h

/-- `hostport_parse`: `none` is `NULL`. -/
def hostportParse (inet : Inet) (s : CString) : Option Hostport :=
  match sockaddrParse inet s with
  | some parse =>
      let hostname := strncpy 254 s.bytes 254
      some {
        hostname :=
          match sockaddrGetIpStr inet (some parse) 253 with
          | some ip => overwrite hostname ip
          | none => hostname
        port := sockaddrGetPort parse
        addr := some parse }
  | none => do
      let (name, p) ← findHostnameEnd s.bytes
      let port ← portAfter p
      some { hostname := strncpy 254 s.bytes name.length, port, addr := none }

/-- `hostport_new`: `none` is `NULL`. -/
def hostportNew (inet : Inet) (hostname : CString) (port : UInt16) : Option Hostport :=
  (hostportParse inet hostname).map fun host => { host with port }

/-- `hostport_get_hostname`: `none` if there is no NUL in the array. -/
def hostportGetHostname (host : Hostport) : Option CString :=
  if 0 ∈ host.hostname then some ⟨upToNul host.hostname, not_mem_upToNul _⟩ else none

/-- `hostport_get_port`. -/
def hostportGetPort (host : Hostport) : UInt16 := host.port

/-- `hostport_is_ip`. -/
def hostportIsIp (host : Hostport) : Bool := host.addr.isSome

/-- What `"%s:%d"` prints for a host. -/
def Hostport.text (host : Hostport) : Option CString :=
  (hostportGetHostname host).map fun hostname =>
    (hostname.append (.lit ":" noNul_colon)).append (.decimal host.port.toNat)

/-- `hostport_to_string`: what is written to `buf`. -/
def hostportToString (host : Hostport) (len : Nat) : Option CString :=
  host.text.map (CString.snprintf len)

/-! ## Scanning a name -/

section

variable {n seglen : Nat} {c : UInt8} {s name p : List UInt8}

/-- A name has no colon and no bracket. -/
theorem ne_of_scanChar {k : Nat} (h : scanChar seglen c = .seglen k) : c ≠ 58 ∧ c ≠ 91 := by
  constructor <;>
    · rintro rfl
      cases h

/-- The scan ends here, or goes on after a character of the name. -/
theorem scanHostname_cons (h : scanHostname n seglen (c :: s) = some (name, p)) :
    (name = [] ∧ p = c :: s) ∨
      ∃ k name', n < 253 ∧ scanChar seglen c = .seglen k ∧
        scanHostname (n + 1) k s = some (name', p) ∧ name = c :: name' := by
  rw [scanHostname] at h
  split at h
  · next hn =>
      cases hc : scanChar seglen c with
      | seglen k =>
          rw [hc] at h
          obtain ⟨⟨name', p'⟩, hscan, heq⟩ := Option.map_eq_some_iff.1 h
          cases heq
          exact .inr ⟨k, name', hn, rfl, hscan, rfl⟩
      | stop =>
          rw [hc] at h
          cases h
          exact .inl ⟨rfl, rfl⟩
      | reject =>
          rw [hc] at h
          cases h
  · cases h
    exact .inl ⟨rfl, rfl⟩

theorem eq_of_scanHostname (h : scanHostname n seglen s = some (name, p)) :
    s = name ++ p ∧ name.length ≤ 253 - n ∧ ∀ c ∈ name, c ≠ 58 ∧ c ≠ 91 := by
  induction s generalizing n seglen name with
  | nil => cases h; simp
  | cons c s ih =>
      rcases scanHostname_cons h with ⟨rfl, rfl⟩ | ⟨k, name', hn, hc, hscan, rfl⟩
      · simp
      · obtain ⟨rfl, hlen, hname⟩ := ih hscan
        refine ⟨rfl, ?_, List.forall_mem_cons.2 ⟨ne_of_scanChar hc, hname⟩⟩
        rw [List.length_cons]
        omega

/-- The scan stops at a colon. -/
theorem scanHostname_colon (q : List UInt8) :
    scanHostname n seglen (58 :: q) = some ([], 58 :: q) := by
  rw [scanHostname]
  split <;> rfl

/-- A name that was scanned is scanned again in front of a colon. -/
theorem scanHostname_append (h : scanHostname n seglen s = some (name, p)) (q : List UInt8) :
    scanHostname n seglen (name ++ 58 :: q) = some (name, 58 :: q) := by
  induction s generalizing n seglen name with
  | nil => cases h; exact scanHostname_colon q
  | cons c s ih =>
      rcases scanHostname_cons h with ⟨rfl, rfl⟩ | ⟨k, name', hn, hc, hscan, rfl⟩
      · exact scanHostname_colon q
      · rw [List.cons_append, scanHostname, if_pos hn, hc]
        simp only [ih hscan, Option.map_some]

end

/-! ## Hosts that are parsed -/

/-- The name is in the array. -/
theorem hostportGetHostname_eq {host : Hostport} {name rest : List UInt8} (hname : 0 ∉ name)
    (h : host.hostname = name ++ 0 :: rest) :
    hostportGetHostname host = some ⟨name, hname⟩ := by
  have hbytes : upToNul host.hostname = name := by
    rw [h, upToNul_append hname]
    exact List.append_nil name
  rw [hostportGetHostname, if_pos (by rw [h]; simp)]
  simp only [hbytes]

section

variable {inet : Inet} {s : CString}

/-- A host with an address. -/
theorem hostportParse_addr (hprints : inet.Prints) {addr : Sockaddr} {af : Af}
    (hparse : sockaddrParse inet s = some addr) (haf : addr.sa_family = some af) :
    ∃ host, hostportParse inet s = some host ∧ host.addr = some addr ∧
      host.port = sockaddrGetPort addr ∧
      hostportGetHostname host = some (inet.ntop af (addr.ip af)) := by
  have hfit : (inet.ntop af (addr.ip af)).strlen < 253 :=
    (hprints.length_le af (addr.ip af)).trans_lt (by decide)
  have hget : sockaddrGetIpStr inet (some addr) 253 = some (inet.ntop af (addr.ip af)) := by
    rw [sockaddrGetIpStr, haf, Option.bind_eq_bind, Option.bind_some, Inet.inetNtop, if_pos hfit]
  rw [hostportParse, hparse]
  refine ⟨_, rfl, rfl, rfl, ?_⟩
  simp only [hget]
  exact hostportGetHostname_eq (inet.ntop af (addr.ip af)).noNul rfl

/-- A host with a name. -/
theorem hostportParse_name {name p : List UInt8} {port : UInt16}
    (hparse : sockaddrParse inet s = none) (hscan : findHostnameEnd s.bytes = some (name, p))
    (hport : portAfter p = some port) :
    ∃ host hname, hostportParse inet s = some host ∧ host.addr = none ∧ host.port = port ∧
      hostportGetHostname host = some ⟨name, hname⟩ := by
  obtain ⟨hbytes, hlen, -⟩ := eq_of_scanHostname hscan
  have hname : 0 ∉ name := fun h => s.noNul (hbytes ▸ List.mem_append_left _ h)
  have hcopy : strncpy 254 s.bytes name.length =
      name ++ 0 :: List.replicate (253 - name.length) 0 := by
    rw [strncpy, hbytes, List.take_left, ← List.replicate_succ]
    congr 2
    omega
  rw [hostportParse, hparse]
  simp only [hscan, hport, Option.bind_eq_bind, Option.bind_some]
  exact ⟨_, hname, rfl, rfl, rfl, hostportGetHostname_eq hname hcopy⟩

/-- A host has an address or a name. -/
theorem hostportParse_cases {host : Hostport} (h : hostportParse inet s = some host) :
    (∃ addr, sockaddrParse inet s = some addr) ∨
      sockaddrParse inet s = none ∧
        ∃ name p port, findHostnameEnd s.bytes = some (name, p) ∧ portAfter p = some port := by
  cases hparse : sockaddrParse inet s with
  | some addr => exact .inl ⟨addr, rfl⟩
  | none =>
      rw [hostportParse, hparse] at h
      obtain ⟨⟨name, p⟩, hscan, h⟩ := Option.bind_eq_some_iff.1 h
      obtain ⟨port, hport, -⟩ := Option.bind_eq_some_iff.1 h
      exact .inr ⟨rfl, name, p, port, hscan, hport⟩

end

/-! ## Printing and parsing again -/

/-- The text of the host, written to a buffer it fits into, is parsed as the
same host. -/
def Reparses (inet : Inet) (host : Hostport) : Prop :=
  ∃ text, host.text = some text ∧ ∀ len, text.strlen < len →
    ∃ written host', hostportToString host len = some written ∧
      hostportParse inet written = some host' ∧
      hostportGetHostname host' = hostportGetHostname host ∧
      hostportGetPort host' = hostportGetPort host ∧
      hostportIsIp host' = hostportIsIp host

section

variable {inet : Inet} {host : Hostport} {name : CString}

/-- The text of a host. -/
theorem text_eq (hname : hostportGetHostname host = some name) :
    ∃ text, host.text = some text ∧
      text.bytes = name.bytes ++ 58 :: Numeral.decimal host.port.toNat := by
  rw [Hostport.text, hname, Option.map_some]
  exact ⟨_, rfl, by simp [CString.append, CString.decimal, CString.lit, ascii]⟩

theorem reparses_iff {text : CString} (htext : host.text = some text) :
    Reparses inet host ↔
      ∃ host', hostportParse inet text = some host' ∧
        hostportGetHostname host' = hostportGetHostname host ∧ host'.port = host.port ∧
        host'.addr.isSome = host.addr.isSome := by
  constructor
  · rintro ⟨text', htext', hwrite⟩
    rw [htext] at htext'
    cases htext'
    obtain ⟨written, host', hwritten, hrest⟩ := hwrite _ (Nat.lt_succ_self _)
    rw [hostportToString, htext, Option.map_some, snprintf_of_lt (Nat.lt_succ_self _)] at hwritten
    cases hwritten
    exact ⟨host', hrest⟩
  · rintro ⟨host', hrest⟩
    refine ⟨text, htext, fun len hlen => ⟨text, host', ?_, hrest⟩⟩
    rw [hostportToString, htext, Option.map_some, snprintf_of_lt hlen]

end

section

variable {inet : Inet} {text : CString} {name : List UInt8} {port : UInt16}
  (htext : text.bytes = name ++ 58 :: Numeral.decimal port.toNat)
include htext

/-- Where the parser cuts the text of a host. -/
theorem ipPart_text (hname : ∀ c ∈ name, c ≠ 58 ∧ c ≠ 91) :
    ipPart text.bytes = some (.inet, name, 58 :: Numeral.decimal port.toNat) :=
  ipPart_eq_some.2 ⟨htext, fun h => (hname 58 h).1 rfl,
    fun h => (hname 91 (List.mem_of_mem_head? h)).2 rfl, .inr rfl⟩

/-- A name that is an IPv4 address is read as one. -/
theorem sockaddrParse_ip_text (hname : ∀ c ∈ name, c ≠ 58 ∧ c ≠ 91) (hlen : name.length ≤ 45)
    {ip : Ip .inet} (hip : inet.pton .inet name = some ip) :
    ∃ addr, sockaddrParse inet text = some addr ∧ addr.sa_family = some .inet ∧
      addr.ip .inet = ip ∧ sockaddrGetPort addr = port := by
  have hdecimal : (Numeral.decimal port.toNat).length ≤ 5 :=
    length_decimal_le (by decide) (port.toNat_lt.trans_le (by decide))
  have hfit : text.bytes.length ≤ 127 := by
    rw [htext, List.length_append, List.length_cons]
    omega
  have hpart := ipPart_text htext hname
  rw [← List.take_of_length_le hfit] at hpart
  obtain ⟨hread, hvalue⟩ := portRead_decimal port
  obtain ⟨addr, hparse, hfamily, hsame, hget⟩ := sockaddrParse_of_portRead hpart hip hread
  exact ⟨addr, hparse, hfamily, hsame, hget.trans hvalue⟩

/-- A name that is no IPv4 address is not. -/
theorem sockaddrParse_name_text (hdoc : inet.Documented) (hname : ∀ c ∈ name, c ≠ 58 ∧ c ≠ 91)
    (hip : inet.pton .inet name = none) : sockaddrParse inet text = none := by
  cases hparse : sockaddrParse inet text with
  | none => rfl
  | some addr =>
      obtain ⟨af, t, _, ip, hbuf, ht, -⟩ := sockaddrParse_cases hparse
      obtain ⟨after, hpart⟩ := ipPart_of_take hdoc hbuf ht
      rw [ipPart_text htext hname] at hpart
      cases hpart
      rw [hip] at ht
      cases ht

end

/-- Digits that stand for a port are read to their end. -/
theorem strtoul_digits {digits : List UInt8} (hne : digits ≠ [])
    (hdigits : ∀ d ∈ digits, isDigit d = true) (hmax : value digits ≤ 65535) :
    strtoul digits = (value digits, []) := by
  have hend : ∀ b ∈ ([] : List UInt8).head?, isDigit b = false := fun b hb => by cases hb
  have hscan := scan_digits hne hdigits hend
  rw [List.append_nil] at hscan
  rw [strtoul, hscan]
  simp only
  rw [if_neg (by omega), if_neg Bool.false_ne_true]

/-- The text of a port is read. -/
theorem portAfter_portText {after : List UInt8} {port : Nat} (h : PortText after port) :
    portAfter after = some (.ofNat port) ∧ (UInt16.ofNat port).toNat = port := by
  cases h with
  | absent => exact ⟨rfl, rfl⟩
  | @digits digits hne hdigits hmax =>
      refine ⟨?_, UInt16.toNat_ofNat_of_lt' (Nat.lt_succ_of_le hmax)⟩
      rw [portAfter, if_pos List.head?_cons, List.tail_cons, strtoul_digits hne hdigits hmax]
      exact if_neg hne.symm

theorem portAfter_decimal (port : UInt16) :
    portAfter (58 :: Numeral.decimal port.toNat) = some port := by
  have hmax : value (Numeral.decimal port.toNat) ≤ 65535 := by
    rw [value_decimal]
    exact Nat.le_of_lt_succ port.toNat_lt
  have hport := PortText.digits (decimal_ne_nil _) (fun _ => isDigit_of_mem_decimal) hmax
  rw [(portAfter_portText hport).1, value_decimal, UInt16.ofNat_toNat]

section

variable {inet : Inet} {host : Hostport} {name : CString}
  (hget : hostportGetHostname host = some name)
include hget

/-- An IPv4 address is the same host again. -/
theorem reparses_inet (hprints : inet.Prints) {ip : Ip .inet} (hname : name = inet.ntop .inet ip)
    (haddr : host.addr.isSome = true) : Reparses inet host := by
  obtain ⟨text, htext, hbytes⟩ := text_eq hget
  subst hname
  have hchar : ∀ c ∈ (inet.ntop .inet ip).bytes, c ≠ 58 ∧ c ≠ 91 := fun c hc =>
    ⟨fun h => hprints.no_colon ip (h ▸ hc), (hprints.no_bracket .inet ip c hc).1⟩
  obtain ⟨addr, hparse, hfamily, hip, hport⟩ :=
    sockaddrParse_ip_text hbytes hchar (hprints.length_le .inet ip) (hprints.pton_ntop .inet ip)
  obtain ⟨host', hparse', haddr', hport', hget'⟩ := hostportParse_addr hprints hparse hfamily
  refine (reparses_iff htext).2 ⟨host', hparse', ?_, hport'.trans hport, ?_⟩
  · rw [hget', hget, hip]
  · rw [haddr', haddr]
    rfl

/-- An IPv6 address is not. -/
theorem not_reparses_inet6 (hprints : inet.Prints)
    (hcolon : ∀ ip, 58 ∈ (inet.ntop .inet6 ip).bytes) {ip : Ip .inet6}
    (hname : name = inet.ntop .inet6 ip) : ¬Reparses inet host := by
  obtain ⟨text, htext, hbytes⟩ := text_eq hget
  subst hname
  rw [reparses_iff htext]
  rintro ⟨host', hparse, hsame, -, -⟩
  rw [hget] at hsame
  -- What is parsed from a text that does not begin with a bracket has no colon.
  rcases hostportParse_cases hparse with ⟨addr, haddr⟩ | ⟨hnone, name, p, port, hscan, hport⟩
  · obtain ⟨af, t, after, -, hpart, -, -, hfamily, -⟩ := sockaddrParse_cases haddr
    obtain ⟨_, hparse', -, -, hget'⟩ := hostportParse_addr hprints haddr hfamily
    rw [hparse] at hparse'
    cases hparse'
    rw [hsame, Option.some.injEq] at hget'
    cases af with
    | inet => exact hprints.no_colon _ (hget' ▸ hcolon ip)
    | inet6 =>
        obtain ⟨hlead, -⟩ := ipPart_eq_some.1 hpart
        have hhead : (text.bytes.take 127).head? = some 91 := by
          rw [hlead]
          rfl
        rw [hbytes] at hhead
        have hbracket := hprints.no_bracket .inet6 ip
        cases hntop : (inet.ntop .inet6 ip).bytes with
        | nil => exact absurd (hcolon ip) (by simp [hntop])
        | cons c t =>
            rw [hntop] at hhead hbracket
            cases hhead
            exact (hbracket 91 List.mem_cons_self).1 rfl
  · obtain ⟨_, hname, hparse', -, -, hget'⟩ := hostportParse_name hnone hscan hport
    rw [hparse] at hparse'
    cases hparse'
    rw [hsame, Option.some.injEq] at hget'
    have hmem := hcolon ip
    rw [hget'] at hmem
    exact ((eq_of_scanHostname hscan).2.2 58 hmem).1 rfl

/-- A name is, unless it is the text of an IPv4 address. -/
theorem reparses_name (hdoc : inet.Documented) (hprints : inet.Prints) (haddr : host.addr = none)
    {s p : List UInt8} (hscan : findHostnameEnd s = some (name.bytes, p)) :
    Reparses inet host ↔ inet.pton .inet name.bytes = none := by
  obtain ⟨text, htext, hbytes⟩ := text_eq hget
  obtain ⟨-, -, hchar⟩ := eq_of_scanHostname hscan
  rw [reparses_iff htext]
  constructor
  · rintro ⟨host', hparse, -, -, hip⟩
    cases hpton : inet.pton .inet name.bytes with
    | none => rfl
    | some ip =>
        have hlen := (hdoc.inet_text _ ip hpton).1
        obtain ⟨addr, haddr', hfamily, -⟩ :=
          sockaddrParse_ip_text hbytes hchar (by omega) hpton
        obtain ⟨_, hparse', hsome, -⟩ := hostportParse_addr hprints haddr' hfamily
        rw [hparse] at hparse'
        cases hparse'
        rw [haddr, hsome] at hip
        cases hip
  · intro hpton
    have hnone := sockaddrParse_name_text hbytes hdoc hchar hpton
    have hscan' := scanHostname_append hscan (Numeral.decimal host.port.toNat)
    rw [← hbytes] at hscan'
    obtain ⟨host', hname, hparse, haddr', hport, hget'⟩ :=
      hostportParse_name hnone hscan' (portAfter_decimal host.port)
    exact ⟨host', hparse, hget'.trans hget.symm, hport, by rw [haddr', haddr]⟩

end

/-- There is no IPv6 address in front, and if there is an IPv4 address, then
its port is read. -/
def PrintsBack (inet : Inet) (s : CString) : Prop :=
  s.bytes.head? ≠ some 91 ∧
    ∀ text after, ipPart s.bytes = some (.inet, text, after) →
      (inet.pton .inet text).isSome = true → PortRead (inBuffer s after)

/-- A name prints back, unless it is the text of an IPv4 address. -/
theorem printsBack_name {inet : Inet} (hdoc : inet.Documented) {s : CString}
    (hnone : sockaddrParse inet s = none) {name p : List UInt8} {port : UInt16}
    (hscan : findHostnameEnd s.bytes = some (name, p)) (hport : portAfter p = some port) :
    PrintsBack inet s ↔ inet.pton .inet name = none := by
  have hpart : ipPart s.bytes = some (.inet, name, p) := by
    obtain ⟨hbytes, -, hchar⟩ := eq_of_scanHostname hscan
    rw [ipPart_eq_some]
    exact ⟨hbytes, fun h => (hchar 58 h).1 rfl, fun h =>
      (hchar 91 (List.mem_of_mem_head? h)).2 rfl, eq_nil_or_colon hport⟩
  constructor
  · intro hback
    by_contra hpton
    obtain ⟨ip, hip⟩ := Option.ne_none_iff_exists'.1 hpton
    have hread := hback.2 name p hpart (by rw [hip]; rfl)
    obtain ⟨addr, hsock, -⟩ := sockaddrParse_of_portRead (ipPart_take hdoc hpart hip) hip hread
    rw [hnone] at hsock
    cases hsock
  · intro hpton
    refine ⟨by rw [ne_eq, head_of_ipPart hpart]; decide, fun text after hpart' hip => ?_⟩
    rw [hpart] at hpart'
    cases hpart'
    rw [hpton] at hip
    cases hip

/-- A host that comes from a string is printed and parsed again as the same
host exactly if the string prints back. -/
theorem hostport_reparses (inet : Inet) (hdoc : inet.Documented) (hprints : inet.Prints)
    (hcolon : ∀ ip, 58 ∈ (inet.ntop .inet6 ip).bytes) (s : CString) (host : Hostport)
    (hhost : hostportParse inet s = some host ∨ ∃ port, hostportNew inet s port = some host) :
    Reparses inet host ↔ PrintsBack inet s := by
  obtain ⟨host₀, hparse, hname, haddr⟩ : ∃ host₀, hostportParse inet s = some host₀ ∧
      hostportGetHostname host = hostportGetHostname host₀ ∧ host.addr = host₀.addr := by
    rcases hhost with h | ⟨port, h⟩
    · exact ⟨host, h, rfl, rfl⟩
    · obtain ⟨host₀, hparse, rfl⟩ := Option.map_eq_some_iff.1 h
      exact ⟨host₀, hparse, rfl, rfl⟩
  rcases hostportParse_cases hparse with ⟨addr, hsock⟩ | ⟨hnone, name, p, port, hscan, hport⟩
  · -- An address: it prints back exactly if it is an IPv4 address.
    obtain ⟨af, text, after, ip, hbuf, hip, hread, hfamily, -⟩ := sockaddrParse_cases hsock
    obtain ⟨after', hpart⟩ := ipPart_of_take hdoc hbuf hip
    rw [ipPart_take hdoc hpart hip] at hbuf
    cases hbuf
    obtain ⟨_, hparse', hsome, -, hget⟩ := hostportParse_addr hprints hsock hfamily
    rw [hparse] at hparse'
    cases hparse'
    rw [← hname] at hget
    cases af with
    | inet =>
        refine iff_of_true (reparses_inet hget hprints rfl ?_) ⟨?_, ?_⟩
        · rw [haddr, hsome]
          rfl
        · rw [ne_eq, head_of_ipPart hpart]
          decide
        · intro text' after'' hpart' hip'
          rw [hpart] at hpart'
          cases hpart'
          exact hread
    | inet6 =>
        exact iff_of_false (not_reparses_inet6 hget hprints hcolon rfl) fun h =>
          h.1 ((head_of_ipPart hpart).2 rfl)
  · -- A name: it prints back exactly if it is not the text of an IPv4 address.
    obtain ⟨_, hnul, hparse', hsome, -, hget⟩ := hostportParse_name hnone hscan hport
    rw [hparse] at hparse'
    cases hparse'
    rw [reparses_name (hname.trans hget) hdoc hprints (haddr.trans hsome) hscan,
      printsBack_name hdoc hnone hscan hport]

theorem hostport_reparses_localhost :
    ∃ host, hostportParse Inet.canonical (.lit "localhost:80") = some host ∧
      Reparses Inet.canonical host := by
  have hsome : (hostportParse Inet.canonical (.lit "localhost:80")).isSome = true := by
    decide +kernel
  obtain ⟨host, hparse⟩ := Option.isSome_iff_exists.1 hsome
  refine ⟨host, hparse, (hostport_reparses Inet.canonical canonical_documented canonical_prints
    canonical_colon (.lit "localhost:80") host (.inl hparse)).2 ⟨by decide, ?_⟩⟩
  intro text after hpart hip
  have hsplit : ipPart (lit "localhost:80").bytes =
      some (.inet, ascii "localhost", ascii ":80") := by decide
  rw [hsplit] at hpart
  cases hpart
  have hname : (Inet.canonical.pton .inet (ascii "localhost")).isSome = false := by decide +kernel
  rw [hname] at hip
  cases hip

/-- An IPv6 address is printed without its brackets. -/
theorem hostport_loses_brackets :
    ∃ host, hostportParse Inet.canonical (.lit "[2001:1db8:1111:2222:3333:4444:5555:6666]:80") =
      some host ∧ ¬Reparses Inet.canonical host := by
  have hfamily : (sockaddrParse Inet.canonical
      (.lit "[2001:1db8:1111:2222:3333:4444:5555:6666]:80")).map (·.sa_family) =
        some (some .inet6) := by decide +kernel
  obtain ⟨addr, hsock, hfamily⟩ := Option.map_eq_some_iff.1 hfamily
  obtain ⟨host, hparse, -, -, hget⟩ := hostportParse_addr canonical_prints hsock hfamily
  exact ⟨host, hparse, not_reparses_inet6 hget canonical_prints canonical_colon rfl⟩

end CommonsC.Net
