import CommonsC.Net.Parse

/-!
# CommonsC.Net.Text

What `sockaddr_to_string` writes is what `sockaddr_parse` reads.

The four shapes are one: an IP address as the grammar wants it in front of a
port (`lead`), and the text of a port or nothing.
-/

namespace CommonsC.Net

open CString Numeral

/-- What is written for a port. -/
def portText (port : UInt16) : List UInt8 :=
  if port = 0 then [] else 58 :: Numeral.decimal port.toNat

theorem portText_portText (port : UInt16) : PortText (portText port) port.toNat := by
  rw [portText]
  split
  · next h =>
      subst h
      exact .absent
  · have hmax : value (Numeral.decimal port.toNat) ≤ 65535 := by
      rw [value_decimal]
      exact Nat.le_of_lt_succ port.toNat_lt
    have hport := PortText.digits (decimal_ne_nil _) (fun _ => isDigit_of_mem_decimal) hmax
    rwa [value_decimal] at hport

theorem length_portText_le (port : UInt16) : (portText port).length ≤ 6 := by
  rw [portText]
  split
  · exact Nat.zero_le 6
  · exact Nat.succ_le_succ (length_decimal_le (by decide) (port.toNat_lt.trans_le (by decide)))

/-- Printed ports are read back. -/
theorem portRead_decimal (port : UInt16) :
    PortRead (58 :: Numeral.decimal port.toNat) ∧
      portOf (58 :: Numeral.decimal port.toNat) = port := by
  have hread := strtol_digits (decimal_ne_nil port.toNat) fun _ => isDigit_of_mem_decimal
  refine ⟨fun p hp => ?_, ?_⟩
  · cases hp
    rw [hread]
  · rw [portOf, strchr, if_pos rfl, Option.map_some, Option.getD_some, hread, ← UInt16.toNat_inj,
      value_decimal, ofInt_clampLong (Nat.le_of_lt_succ port.toNat_lt)]

theorem portRead_portText (port : UInt16) :
    PortRead (portText port) ∧ portOf (portText port) = port := by
  rw [portText]
  split
  · next h =>
      subst h
      exact ⟨fun p hp => (by cases hp), rfl⟩
  · exact portRead_decimal port

/-- A printed IP address ends where the port begins. -/
theorem Inet.Prints.cut {inet : Inet} (hprints : inet.Prints) {af : Af} {ip : Ip af}
    {after : List UInt8} (hafter : after = [] ∨ after.head? = some 58) :
    Cut af (inet.ntop af ip).bytes after := by
  cases af with
  | inet =>
      exact ⟨hprints.no_colon ip, fun h =>
        (hprints.no_bracket .inet ip 91 (List.mem_of_mem_head? h)).1 rfl, hafter⟩
  | inet6 => exact fun h => (hprints.no_bracket .inet6 ip 93 h).2 rfl

section

variable {inet : Inet} (hprints : inet.Prints) {addr : Sockaddr} {af : Af}
include hprints

theorem length_lead_ntop_le (ip : Ip af) : (lead af (inet.ntop af ip).bytes).length ≤ 47 := by
  have hip := hprints.length_le af ip
  rw [CString.strlen] at hip
  cases af <;> simp only [lead, List.length_cons, List.length_append, List.length_nil] <;> omega

/-- The text of an address, before it is cut to the buffer. -/
theorem sockaddrToString_eq (haf : addr.sa_family = some af) :
    ∃ text : CString,
      text.bytes =
        lead af (inet.ntop af (addr.ip af)).bytes ++ portText (sockaddrGetPort addr) ∧
      ∀ len, sockaddrToString inet (some addr) len = some (text.snprintf len) := by
  have hfit : (inet.ntop af (addr.ip af)).strlen < 64 :=
    (hprints.length_le af (addr.ip af)).trans_lt (by decide)
  have hget : sockaddrGetIpStr inet (some addr) 64 = some (inet.ntop af (addr.ip af)) := by
    rw [sockaddrGetIpStr, haf, Option.bind_eq_bind, Option.bind_some, Inet.inetNtop, if_pos hfit]
  simp only [sockaddrToString, hget, haf, Option.bind_eq_bind, Option.bind_some, portText]
  refine ⟨_, ?_, fun len => rfl⟩
  cases af with
  | inet =>
      rw [if_neg (by decide)]
      split
      · exact (List.append_nil _).symm
      · simp [lead, CString.append, CString.decimal, CString.lit, ascii]
  | inet6 =>
      rw [if_pos rfl]
      split <;> simp [lead, CString.append, CString.decimal, CString.lit, ascii]

end

/-- **Round trip**: an address that is printed to 64 bytes or more and parsed
again has the same family, IP address and port. -/
theorem sockaddrToString_roundtrip (inet : Inet) (hprints : inet.Prints) (addr : Sockaddr)
    (af : Af) (haf : addr.sa_family = some af) (len : Nat) (hlen : 64 ≤ len) :
    ∃ text addr', sockaddrToString inet (some addr) len = some text ∧
      sockaddrParse inet text = some addr' ∧
      addr'.sa_family = some af ∧ addr'.ip af = addr.ip af ∧
      sockaddrGetPort addr' = sockaddrGetPort addr := by
  obtain ⟨text, hbytes, hprint⟩ := sockaddrToString_eq hprints haf
  have hlength : text.strlen ≤ 53 := by
    have hlead := length_lead_ntop_le hprints (addr.ip af)
    have hport := length_portText_le (sockaddrGetPort addr)
    rw [CString.strlen, hbytes, List.length_append]
    omega
  have hpart : ipPart (text.bytes.take 127) =
      some (af, (inet.ntop af (addr.ip af)).bytes, portText (sockaddrGetPort addr)) := by
    rw [List.take_of_length_le (hlength.trans (by decide)), hbytes]
    exact ipPart_eq_some.2 ⟨rfl, hprints.cut (portText_portText _).after_eq⟩
  obtain ⟨hread, hvalue⟩ := portRead_portText (sockaddrGetPort addr)
  obtain ⟨addr', hparse, hfamily, hip, hget⟩ :=
    sockaddrParse_of_portRead hpart (hprints.pton_ntop af (addr.ip af)) hread
  refine ⟨text, addr', ?_, hparse, hfamily, hip, hget.trans hvalue⟩
  rw [hprint, snprintf_of_lt (by omega)]

/-- Port 8080 of 127.0.0.1. -/
theorem sockaddrToString_roundtrip_loopback :
    ∃ text addr', sockaddrToString Inet.canonical (some (sockaddrSetPort
        (sockaddrNew.setIp .inet ⟨[127, 0, 0, 1], rfl⟩) 8080)) 64 = some text ∧
      sockaddrParse Inet.canonical text = some addr' ∧
      addr'.sa_family = some .inet ∧
      addr'.ip .inet = (sockaddrSetPort
        (sockaddrNew.setIp .inet ⟨[127, 0, 0, 1], rfl⟩) 8080).ip .inet ∧
      sockaddrGetPort addr' = sockaddrGetPort (sockaddrSetPort
        (sockaddrNew.setIp .inet ⟨[127, 0, 0, 1], rfl⟩) 8080) :=
  sockaddrToString_roundtrip Inet.canonical canonical_prints _ .inet rfl 64 (by decide)

end CommonsC.Net
