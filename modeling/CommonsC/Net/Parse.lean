import CommonsC.Net.Inet

/-!
# CommonsC.Net.Parse

What `sockaddr_parse` accepts.

`AddressText` is the grammar of socket addresses.  The parser cuts its buffer
where the grammar does (`ipPart_eq_some`), but it does not look at what stands
between `]` and the colon, takes for the port whatever `strtol` reads, and
knows the first 127 bytes only.  `Plain` says when this makes no difference:
exactly then the parser is right.
-/

namespace CommonsC.Net

open CString Numeral

/-! ## The grammar -/

/-- What follows the IP address, and the port it stands for. -/
inductive PortText : List UInt8 → Nat → Prop
  | absent : PortText [] 0
  | digits {digits : List UInt8} : digits ≠ [] → (∀ d ∈ digits, isDigit d = true) →
      value digits ≤ 65535 → PortText (58 :: digits) (value digits)

/-- The text of an IP address in front of a port. -/
def lead : Af → List UInt8 → List UInt8
  | .inet, text => text
  | .inet6, text => 91 :: (text ++ [93])

/-- The texts of socket addresses: `v4`, `v4:port`, `[v6]` and `[v6]:port`. -/
inductive AddressText (inet : Inet) : List UInt8 → (af : Af) → Ip af → Nat → Prop
  | mk {af : Af} {text after : List UInt8} {ip : Ip af} {port : Nat} :
      inet.pton af text = some ip → PortText after port →
      AddressText inet (lead af text ++ after) af ip port

/-! ## Where the parser cuts -/

/-- The family, the text of the IP address, and what follows it. -/
def ipPart (s : List UInt8) : Option (Af × List UInt8 × List UInt8) :=
  if s.head? = some 91 then
    (strchr 93 s.tail).map fun (text, after) => (.inet6, text, after)
  else
    match strchr 58 s with
    | some (text, port) => some (.inet, text, 58 :: port)
    | none => some (.inet, s, [])

/-- The text of an IP address ends where `after` begins. -/
def Cut : Af → List UInt8 → List UInt8 → Prop
  | .inet, text, after => 58 ∉ text ∧ text.head? ≠ some 91 ∧ (after = [] ∨ after.head? = some 58)
  | .inet6, text, _ => 93 ∉ text

theorem splitAddress_eq (buf : List UInt8) :
    splitAddress buf =
      (ipPart buf).map fun (af, text, after) => (af, text, (strchr 58 after).map Prod.snd) := by
  rw [splitAddress, ipPart]
  split
  · cases strchr 93 buf.tail <;> rfl
  · cases strchr 58 buf <;> simp [strchr]

theorem ipPart_eq_some {s text after : List UInt8} {af : Af} :
    ipPart s = some (af, text, after) ↔ s = lead af text ++ after ∧ Cut af text after := by
  constructor
  · intro h
    rw [ipPart] at h
    split at h
    · next hbracket =>
        obtain ⟨rest, rfl⟩ := List.head?_eq_some_iff.1 hbracket
        obtain ⟨⟨text', after'⟩, hcut, heq⟩ := Option.map_eq_some_iff.1 h
        cases heq
        obtain ⟨hrest, hmem⟩ := eq_of_strchr hcut
        rw [List.tail_cons] at hrest
        exact ⟨by simp [lead, hrest], hmem⟩
    · next hhead =>
        cases hcut : strchr 58 s with
        | none =>
            rw [hcut] at h
            cases h
            exact ⟨(List.append_nil _).symm, strchr_eq_none.1 hcut, hhead, .inl rfl⟩
        | some p =>
            rw [hcut] at h
            cases h
            obtain ⟨rfl, hmem⟩ := eq_of_strchr hcut
            refine ⟨rfl, hmem, fun hbracket => hhead ?_, .inr rfl⟩
            rw [List.head?_append, hbracket]
            rfl
  · rintro ⟨rfl, hcut⟩
    cases af with
    | inet6 =>
        have hbytes : lead .inet6 text ++ after = 91 :: (text ++ 93 :: after) := by simp [lead]
        rw [hbytes, ipPart, if_pos List.head?_cons, List.tail_cons, strchr_append hcut]
        rfl
    | inet =>
        obtain ⟨hmem, hhead, hafter⟩ := hcut
        have hnot : ¬(text ++ after).head? = some 91 := by
          cases text with
          | cons b text => exact hhead
          | nil => rcases hafter with rfl | h <;> simp_all
        rw [lead, ipPart, if_neg hnot]
        rcases hafter with rfl | hcolon
        · rw [List.append_nil, strchr_eq_none.2 hmem]
        · obtain ⟨port, rfl⟩ := List.head?_eq_some_iff.1 hcolon
          rw [strchr_append hmem]

/-- A bracket in front stands for IPv6. -/
theorem head_of_ipPart {s text after : List UInt8} {af : Af}
    (h : ipPart s = some (af, text, after)) : s.head? = some 91 ↔ af = .inet6 := by
  rw [ipPart] at h
  split at h
  · next hbracket =>
      obtain ⟨_, -, heq⟩ := Option.map_eq_some_iff.1 h
      cases heq
      exact iff_of_true hbracket rfl
  · next hbracket => split at h <;> cases h <;> exact iff_of_false hbracket (by decide)

/-- An accepted text can be cut off, and is short. -/
theorem Inet.Documented.cut {inet : Inet} (hdoc : inet.Documented) {af : Af}
    {text after : List UInt8} {ip : Ip af} (hip : inet.pton af text = some ip)
    (hafter : after = [] ∨ after.head? = some 58) :
    Cut af text after ∧ (lead af text).length ≤ 47 := by
  cases af with
  | inet =>
      obtain ⟨hlen, hbytes⟩ := hdoc.inet_text text ip hip
      refine ⟨⟨fun h => ?_, fun h => ?_, hafter⟩, by rw [lead]; omega⟩
      · rcases hbytes 58 h with h | h <;> cases h
      · rcases hbytes 91 (List.mem_of_mem_head? h) with h | h <;> cases h
  | inet6 =>
      obtain ⟨hlen, hbytes⟩ := hdoc.inet6_text text ip hip
      refine ⟨fun h => ?_, ?_⟩
      · rcases hbytes 93 h with h | h
        · cases h
        · revert h
          decide
      · simp only [lead, List.length_cons, List.length_append, List.length_nil]
        omega

theorem PortText.after_eq {after : List UInt8} {port : Nat} (h : PortText after port) :
    after = [] ∨ after.head? = some 58 := by
  cases h with
  | absent => exact .inl rfl
  | digits => exact .inr rfl

/-- The grammar, read off where the parser cuts. -/
theorem addressText_iff {inet : Inet} (hdoc : inet.Documented) {s : List UInt8} {af : Af}
    {ip : Ip af} {port : Nat} :
    AddressText inet s af ip port ↔
      ∃ text after, ipPart s = some (af, text, after) ∧ inet.pton af text = some ip ∧
        PortText after port := by
  constructor
  · rintro ⟨hip, hport⟩
    exact ⟨_, _, ipPart_eq_some.2 ⟨rfl, (hdoc.cut hip hport.after_eq).1⟩, hip, hport⟩
  · rintro ⟨text, after, hpart, hip, hport⟩
    obtain ⟨rfl, -⟩ := ipPart_eq_some.1 hpart
    exact .mk hip hport

/-! ## The buffer -/

/-- The part of the end of a string that is within its first 127 bytes. -/
def inBuffer (address : CString) (after : List UInt8) : List UInt8 :=
  after.take (127 - (address.strlen - after.length))

/-- `strtol` reads all of the port text, if there is one. -/
def PortRead (after : List UInt8) : Prop :=
  ∀ p ∈ strchr 58 after, (strtol p.2).2 = []

/-- The port that `sockaddr_parse` stores. -/
def portOf (after : List UInt8) : UInt16 :=
  ((strchr 58 after).map fun p => .ofInt (strtol p.2).1).getD 0

/-- Cutting the buffer short cuts what follows the IP address short. -/
theorem ipPart_take {inet : Inet} (hdoc : inet.Documented) {address : CString} {af : Af}
    {text after : List UInt8} {ip : Ip af} (hpart : ipPart address.bytes = some (af, text, after))
    (hip : inet.pton af text = some ip) :
    ipPart (address.bytes.take 127) = some (af, text, inBuffer address after) := by
  obtain ⟨hbytes, hcut⟩ := ipPart_eq_some.1 hpart
  have hshort : (lead af text).length ≤ 47 := (hdoc.cut hip (.inl rfl)).2
  have hlen : address.strlen - after.length = (lead af text).length := by
    rw [CString.strlen, hbytes, List.length_append, Nat.add_sub_cancel]
  rw [ipPart_eq_some, inBuffer, hlen, hbytes, List.take_append, List.take_of_length_le (by omega)]
  refine ⟨rfl, ?_⟩
  cases af with
  | inet6 => exact hcut
  | inet =>
      refine ⟨hcut.1, hcut.2.1, ?_⟩
      rcases hcut.2.2 with rfl | hcolon
      · exact .inl List.take_nil
      · obtain ⟨port, rfl⟩ := List.head?_eq_some_iff.1 hcolon
        cases 127 - (lead .inet text).length with
        | zero => exact .inl rfl
        | succ n => exact .inr rfl

/-- An accepted IP address in the buffer is that of the string. -/
theorem ipPart_of_take {inet : Inet} (hdoc : inet.Documented) {address : CString} {af : Af}
    {text after : List UInt8} {ip : Ip af}
    (hpart : ipPart (address.bytes.take 127) = some (af, text, after))
    (hip : inet.pton af text = some ip) :
    ∃ after', ipPart address.bytes = some (af, text, after') := by
  obtain ⟨hbuf, hcut⟩ := ipPart_eq_some.1 hpart
  have hshort : (lead af text).length ≤ 47 := (hdoc.cut hip (.inl rfl)).2
  refine ⟨after ++ address.bytes.drop 127, ipPart_eq_some.2 ⟨?_, ?_⟩⟩
  · rw [← List.append_assoc, ← hbuf, List.take_append_drop]
  · cases af with
    | inet6 => exact hcut
    | inet =>
        refine ⟨hcut.1, hcut.2.1, ?_⟩
        rcases hcut.2.2 with rfl | hcolon
        · -- The address would fill the buffer.
          have hlen := congrArg List.length hbuf
          rw [List.append_nil, List.length_take] at hlen
          rw [List.nil_append, List.drop_eq_nil_of_le (by omega)]
          exact .inl rfl
        · rw [List.head?_append, hcolon]
          exact .inr rfl

section

variable {inet : Inet} {address : CString} {af : Af} {text after : List UInt8} {ip : Ip af}

/-- If the port is read, the address is what was read. -/
theorem sockaddrParse_of_portRead
    (hpart : ipPart (address.bytes.take 127) = some (af, text, after))
    (hip : inet.pton af text = some ip) (hread : PortRead after) :
    ∃ addr, sockaddrParse inet address = some addr ∧ addr.sa_family = some af ∧ addr.ip af = ip ∧
      sockaddrGetPort addr = portOf after := by
  rw [sockaddrParse, splitAddress_eq, hpart, portOf]
  cases hport : strchr 58 after with
  | none =>
      refine ⟨sockaddrNew.setIp af ip, ?_, rfl, ip_setIp _ _ _, sockaddrGetPort_setIp _ _ _⟩
      simp [sockaddrSetIpStr, hip, hport]
  | some p =>
      have hend : (strtol p.2).2 = [] := hread p hport
      refine ⟨sockaddrSetPort (sockaddrNew.setIp af ip) (.ofInt (strtol p.2).1), ?_, rfl, ?_, ?_⟩
      · simp [sockaddrSetIpStr, hip, hport, hend]
      · rw [ip_setPort, ip_setIp]
      · rw [sockaddrGetPort_setPort, Option.map_some, Option.getD_some]

/-- If the port is not read, there is no address. -/
theorem sockaddrParse_of_not_portRead
    (hpart : ipPart (address.bytes.take 127) = some (af, text, after))
    (hip : inet.pton af text = some ip) (hread : ¬PortRead after) :
    sockaddrParse inet address = none := by
  rw [sockaddrParse, splitAddress_eq, hpart]
  cases hport : strchr 58 after with
  | none =>
      refine absurd (fun p hp => ?_) hread
      rw [hport] at hp
      cases hp
  | some p =>
      have hend : (strtol p.2).2 ≠ [] := fun hend => hread fun p' hp' => by
        rw [hport] at hp'
        cases hp'
        exact hend
      simp [sockaddrSetIpStr, hip, hport, hend]

/-- An address comes from an acceptable IP address and a port that is read. -/
theorem sockaddrParse_cases {addr : Sockaddr} (h : sockaddrParse inet address = some addr) :
    ∃ af text after ip, ipPart (address.bytes.take 127) = some (af, text, after) ∧
      inet.pton af text = some ip ∧ PortRead after ∧ addr.sa_family = some af ∧
      addr.ip af = ip := by
  cases hpart : ipPart (address.bytes.take 127) with
  | none => simp [sockaddrParse, splitAddress_eq, hpart] at h
  | some part =>
      obtain ⟨af, text, after⟩ := part
      cases hip : inet.pton af text with
      | none => simp [sockaddrParse, splitAddress_eq, hpart, sockaddrSetIpStr, hip] at h
      | some ip =>
          have hread : PortRead after := by
            by_contra hread
            rw [sockaddrParse_of_not_portRead hpart hip hread] at h
            cases h
          obtain ⟨addr', hparse, hfamily, hip', -⟩ := sockaddrParse_of_portRead hpart hip hread
          rw [h] at hparse
          cases hparse
          exact ⟨af, text, after, ip, rfl, hip, hread, hfamily, hip'⟩

end

/-! ## Ports -/

/-- Digits are read in full. -/
theorem strtol_digits {digits : List UInt8} (hne : digits ≠ [])
    (h : ∀ d ∈ digits, isDigit d = true) : strtol digits = (clampLong (value digits), []) := by
  have hscan : scan (digits ++ []) = _ := scan_digits hne h (fun b hb => by cases hb)
  rw [List.append_nil] at hscan
  rw [strtol, hscan]
  rfl

theorem ofInt_clampLong {n : Nat} (h : n ≤ 65535) : (UInt16.ofInt (clampLong n)).toNat = n := by
  have hclamp : clampLong n = n := by
    rw [clampLong]
    omega
  rw [hclamp, UInt16.ofInt, UInt16.toNat_ofNat']
  omega

/-- A port text in the buffer is a port text or the beginning of one, and read. -/
theorem PortText.inBuffer {inet : Inet} (hdoc : inet.Documented) {address : CString} {af : Af}
    {text after : List UInt8} {ip : Ip af} {port : Nat}
    (hpart : ipPart address.bytes = some (af, text, after)) (hip : inet.pton af text = some ip)
    (hport : PortText after port) :
    PortRead (inBuffer address after) ∧
      ((portOf (inBuffer address after)).toNat = port ↔ address.strlen ≤ 127 ∨ port = 0) := by
  obtain ⟨hbytes, -⟩ := ipPart_eq_some.1 hpart
  have hshort : (lead af text).length ≤ 47 := (hdoc.cut hip (.inl rfl)).2
  have hlen : address.strlen = (lead af text).length + after.length := by
    rw [CString.strlen, hbytes, List.length_append]
  rw [Net.inBuffer, hlen, Nat.add_sub_cancel]
  cases hport with
  | absent =>
      rw [List.take_nil]
      refine ⟨fun p hp => ?_, by simp [portOf, strchr]⟩
      cases hp
  | @digits digits hne hdigits hmax =>
      obtain ⟨k, hk⟩ : ∃ k, 127 - (lead af text).length = k + 1 := ⟨126 - (lead af text).length,
        by omega⟩
      have htake : strtol (digits.take k) = (clampLong (value (digits.take k)), []) :=
        strtol_digits (by
          rw [ne_eq, List.take_eq_nil_iff, not_or]
          exact ⟨by omega, hne⟩) fun d hd => hdigits d (List.mem_of_mem_take hd)
      have hle := value_take_le digits k
      rw [hk, List.take_succ_cons]
      refine ⟨fun p hp => ?_, ?_⟩
      · cases hp
        rw [htake]
      · rw [portOf, strchr, if_pos rfl, Option.map_some, Option.getD_some, htake,
          ofInt_clampLong (hle.trans hmax), value_take_eq_iff, List.length_cons]
        exact or_congr_left (by omega)

/-! ## What is accepted -/

/-- `sockaddr_parse` is right about a string: there is an address exactly if
the string is the text of one, and then it is that address. -/
def ParsesAddress (inet : Inet) (address : CString) : Prop :=
  ((∃ addr, sockaddrParse inet address = some addr) ↔
    ∃ af ip port, AddressText inet address.bytes af ip port) ∧
  ∀ addr af ip port, sockaddrParse inet address = some addr →
    AddressText inet address.bytes af ip port →
    addr.sa_family = some af ∧ addr.ip af = ip ∧ (sockaddrGetPort addr).toNat = port

/-- Behind an acceptable IP address, what the parser takes for the port is the
text of a port, and it is not cut short unless it is all zeros. -/
def Plain (inet : Inet) (address : CString) : Prop :=
  ∀ af text after, ipPart address.bytes = some (af, text, after) →
    (inet.pton af text).isSome = true → PortRead (inBuffer address after) →
    ∃ port, PortText after port ∧ (address.strlen ≤ 127 ∨ port = 0)

/-- `sockaddr_parse` is right about the plain strings only. -/
theorem sockaddrParse_plain (inet : Inet) (hdoc : inet.Documented) (address : CString) :
    ParsesAddress inet address ↔ Plain inet address := by
  constructor
  · rintro ⟨haccept, hsame⟩ af text after hpart hsome hread
    obtain ⟨ip, hip⟩ := Option.isSome_iff_exists.1 hsome
    obtain ⟨addr, hparse, -, -, hget⟩ :=
      sockaddrParse_of_portRead (ipPart_take hdoc hpart hip) hip hread
    obtain ⟨af', ip', port, htext⟩ := haccept.1 ⟨addr, hparse⟩
    obtain ⟨text', after', hpart', hip', hport⟩ := (addressText_iff hdoc).1 htext
    rw [hpart] at hpart'
    cases hpart'
    refine ⟨port, hport, (hport.inBuffer hdoc hpart hip).2.1 ?_⟩
    rw [← hget]
    exact (hsame addr _ _ port hparse htext).2.2
  · intro hplain
    -- Both sides rest on an acceptable IP address in front, and there is one at most.
    refine ⟨⟨?_, ?_⟩, ?_⟩
    · rintro ⟨addr, hparse⟩
      obtain ⟨af, text, _, ip, hbuf, hip, hread, -⟩ := sockaddrParse_cases hparse
      obtain ⟨after, hpart⟩ := ipPart_of_take hdoc hbuf hip
      rw [ipPart_take hdoc hpart hip] at hbuf
      cases hbuf
      obtain ⟨port, hport, -⟩ := hplain af text after hpart (by rw [hip]; rfl) hread
      exact ⟨af, ip, port, (addressText_iff hdoc).2 ⟨text, after, hpart, hip, hport⟩⟩
    · rintro ⟨af, ip, port, htext⟩
      obtain ⟨text, after, hpart, hip, hport⟩ := (addressText_iff hdoc).1 htext
      obtain ⟨addr, hparse, -⟩ := sockaddrParse_of_portRead (ipPart_take hdoc hpart hip) hip
        (hport.inBuffer hdoc hpart hip).1
      exact ⟨addr, hparse⟩
    · intro addr af ip port hparse htext
      obtain ⟨text, after, hpart, hip, hport⟩ := (addressText_iff hdoc).1 htext
      obtain ⟨hread, hvalue⟩ := hport.inBuffer hdoc hpart hip
      obtain ⟨addr', hparse', hfamily, hip', hget⟩ :=
        sockaddrParse_of_portRead (ipPart_take hdoc hpart hip) hip hread
      rw [hparse] at hparse'
      cases hparse'
      obtain ⟨port', hport', hfit⟩ := hplain af text after hpart (by rw [hip]; rfl) hread
      have hsame : port = port' := by
        cases hport <;> cases hport' <;> rfl
      refine ⟨hfamily, hip', ?_⟩
      rw [hget]
      exact hvalue.2 (hsame ▸ hfit)

theorem sockaddrParse_plain_loopback : ParsesAddress Inet.canonical (.lit "127.0.0.1:8080") := by
  refine (sockaddrParse_plain Inet.canonical canonical_documented (.lit "127.0.0.1:8080")).2 ?_
  intro af text after hpart _ _
  have hsplit : ipPart (lit "127.0.0.1:8080").bytes =
      some (.inet, ascii "127.0.0.1", ascii ":8080") := by decide +kernel
  rw [hsplit] at hpart
  cases hpart
  exact ⟨_, .digits (by decide) (by decide +kernel) (by decide +kernel), .inl (by decide +kernel)⟩

/-- Port 65616 is taken for port 80. -/
theorem sockaddrParse_wraps_port :
    ∃ address, (∃ addr, sockaddrParse Inet.canonical address = some addr ∧
        sockaddrGetPort addr = 80) ∧ ¬ParsesAddress Inet.canonical address := by
  have hparse : ∃ addr, sockaddrParse Inet.canonical (.lit "127.0.0.1:65616") = some addr ∧
      sockaddrGetPort addr = 80 := by
    have hport : (sockaddrParse Inet.canonical (.lit "127.0.0.1:65616")).map sockaddrGetPort =
        some 80 := by decide +kernel
    exact Option.map_eq_some_iff.1 hport
  refine ⟨.lit "127.0.0.1:65616", hparse, fun h => ?_⟩
  obtain ⟨addr, haddr, -⟩ := hparse
  obtain ⟨af, ip, port, htext⟩ := h.1.1 ⟨addr, haddr⟩
  obtain ⟨text, after, hpart, -, hport⟩ := (addressText_iff canonical_documented).1 htext
  have hsplit : ipPart (lit "127.0.0.1:65616").bytes =
      some (.inet, ascii "127.0.0.1", ascii ":65616") := by decide
  rw [hsplit] at hpart
  cases hpart
  cases hport with
  | digits _ _ hmax => exact absurd hmax (by decide)

end CommonsC.Net
