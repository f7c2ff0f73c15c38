import CommonsC.Base.CString
import CommonsC.Base.Numeral
import CommonsC.Base.Strings
import Mathlib.Data.Vector.Basic

/-!
# CommonsC.Net.Sockaddr

Socket addresses (`net/sockaddr/sockaddr.c`).

An address is the memory of a `struct sockaddr_storage`: the family, and the
bytes after it, where `struct sockaddr_in` and `struct sockaddr_in6` have their
fields in network byte order.  What is behind `inet_pton` and `inet_ntop` is a
parameter, `Inet`.
-/

namespace CommonsC.Net

/-- `AF_INET` and `AF_INET6`. -/
inductive Af
  | inet | inet6
deriving DecidableEq, Repr

/-- How many bytes an IP address has. -/
def Af.size : Af → Nat
  | .inet => 4
  | .inet6 => 16

/-- Where the IP address is, counted from the end of `sa_family`: `sin_addr` is
behind the port, and `sin6_addr` behind the port and `sin6_flowinfo`. -/
def Af.offset : Af → Nat
  | .inet => 2
  | .inet6 => 6

/-- `struct in_addr` and `struct in6_addr`. -/
abbrev Ip (af : Af) : Type := List.Vector UInt8 af.size

/-- The conversions of the C library between IP addresses and texts. -/
structure Inet where
  /-- `inet_pton`: `none` if the text is no address of the family. -/
  pton : (af : Af) → List UInt8 → Option (Ip af)
  ntop : (af : Af) → Ip af → CString

/-- `inet_ntop` into `size` bytes: `none` is `NULL`. -/
def Inet.inetNtop (inet : Inet) (af : Af) (ip : Ip af) (size : Nat) : Option CString :=
  if (inet.ntop af ip).strlen < size then some (inet.ntop af ip) else none

/-! ## Addresses -/

/-- `struct sockaddr_storage`.  The family `none` is `AF_UNSPEC`. -/
@[ext] structure Sockaddr where
  sa_family : Option Af
  /-- What follows the family. -/
  data : List UInt8
  length_eq : data.length = 126

/-- Bytes are loaded. -/
def Sockaddr.read (addr : Sockaddr) (offset n : Nat) : List UInt8 :=
  (addr.data.drop offset).take n

/-- Bytes are stored. -/
def Sockaddr.write (addr : Sockaddr) (offset : Nat) (bytes : List UInt8)
    (h : offset + bytes.length ≤ 126) : Sockaddr where
  sa_family := addr.sa_family
  data := addr.data.take offset ++ (bytes ++ addr.data.drop (offset + bytes.length))
  length_eq := by
    rw [List.length_append, List.length_append, List.length_take, List.length_drop, addr.length_eq]
    omega

/-- The bytes of the IP address, read for a family. -/
def Sockaddr.ip (addr : Sockaddr) (af : Af) : Ip af :=
  ⟨addr.read af.offset af.size, by
    rw [Sockaddr.read, List.length_take, List.length_drop, addr.length_eq]
    cases af <;> rfl⟩

/-- `sockaddr_new`. -/
def sockaddrNew : Sockaddr := ⟨none, List.replicate 126 0, List.length_replicate⟩

/-- `htons`, as the bytes in memory. -/
def htons (port : UInt16) : List UInt8 :=
  [.ofNat (port.toNat / 256), .ofNat (port.toNat % 256)]

/-- `ntohs` of the bytes in memory. -/
def ntohs (bytes : List UInt8) : UInt16 :=
  .ofNat ((bytes.getD 0 0).toNat * 256 + (bytes.getD 1 0).toNat)

/-- `sockaddr_set_port`. -/
def sockaddrSetPort (addr : Sockaddr) (port : UInt16) : Sockaddr :=
  addr.write 0 (htons port) (by simp [htons])

/-- `sockaddr_get_port`. -/
def sockaddrGetPort (addr : Sockaddr) : UInt16 := ntohs (addr.read 0 2)

/-- The cases of `sockaddr_set_ip` and of `sockaddr_set_ip_str` for a family
with addresses. -/
def Sockaddr.setIp (addr : Sockaddr) (af : Af) (ip : Ip af) : Sockaddr :=
  Sockaddr.write { addr with sa_family := some af } af.offset ip.val
    (by rw [ip.property]; cases af <;> decide)

/-- `sockaddr_set_ip_str`: `none` is `-1`. -/
def sockaddrSetIpStr (inet : Inet) (addr : Sockaddr) (family : Option Af) (ip_str : List UInt8) :
    Option Sockaddr := do
  let af ← family
  let ip ← inet.pton af ip_str
  some (addr.setIp af ip)

/-- `sockaddr_get_ip_str`: what is written to `dest`; `none` is `-1`. -/
def sockaddrGetIpStr (inet : Inet) (addr : Option Sockaddr) (len : Nat) : Option CString :=
  match addr with
  | none => if len < 5 then none else some (.lit "NULL")
  | some addr => do
      let af ← addr.sa_family
      inet.inetNtop af (addr.ip af) len

/-! ### What is read after a write -/

section

variable {addr : Sockaddr} {offset : Nat} {bytes : List UInt8} {h : offset + bytes.length ≤ 126}

theorem read_write_self : (addr.write offset bytes h).read offset bytes.length = bytes := by
  have hlen : (addr.data.take offset).length = offset := by
    rw [List.length_take, addr.length_eq]
    omega
  rw [Sockaddr.read, Sockaddr.write, List.drop_left' hlen, List.take_left]

theorem read_write_before {pos n : Nat} (hle : pos + n ≤ offset) :
    (addr.write offset bytes h).read pos n = addr.read pos n := by
  have hlen : (addr.data.take offset).length = offset := by
    rw [List.length_take, addr.length_eq]
    omega
  rw [Sockaddr.read, Sockaddr.read, Sockaddr.write, List.drop_append_of_le_length (by omega),
    List.take_append_of_le_length (by rw [List.length_drop]; omega), List.drop_take, List.take_take,
    Nat.min_eq_left (by omega)]

theorem read_write_after {pos n : Nat} (hle : offset + bytes.length ≤ pos) :
    (addr.write offset bytes h).read pos n = addr.read pos n := by
  obtain ⟨k, rfl⟩ := Nat.exists_eq_add_of_le hle
  have hlen : (addr.data.take offset).length = offset := by
    rw [List.length_take, addr.length_eq]
    omega
  have hskip : (addr.data.take offset ++ bytes).length = offset + bytes.length := by
    rw [List.length_append, hlen]
  simp only [Sockaddr.read, Sockaddr.write, ← List.append_assoc]
  rw [← List.drop_drop, List.drop_left' hskip, List.drop_drop]

end

@[simp] theorem ntohs_htons (port : UInt16) : ntohs (htons port) = port := by
  have hport := port.toNat_lt
  rw [← UInt16.toNat_inj]
  simp only [htons, ntohs, List.getD_cons_zero, List.getD_cons_succ, UInt8.toNat_ofNat',
    UInt16.toNat_ofNat']
  omega

@[simp] theorem sockaddrGetPort_setPort (addr : Sockaddr) (port : UInt16) :
    sockaddrGetPort (sockaddrSetPort addr port) = port := by
  have hread : (sockaddrSetPort addr port).read 0 2 = htons port := read_write_self
  rw [sockaddrGetPort, hread, ntohs_htons]

@[simp] theorem ip_setPort (addr : Sockaddr) (port : UInt16) (af : Af) :
    (sockaddrSetPort addr port).ip af = addr.ip af :=
  Subtype.ext (read_write_after (by cases af <;> simp [htons, Af.offset]))

@[simp] theorem sa_family_setPort (addr : Sockaddr) (port : UInt16) :
    (sockaddrSetPort addr port).sa_family = addr.sa_family := rfl

@[simp] theorem ip_setIp (addr : Sockaddr) (af : Af) (ip : Ip af) :
    (addr.setIp af ip).ip af = ip := by
  refine Subtype.ext ?_
  have hread : (addr.setIp af ip).read af.offset ip.val.length = ip.val := read_write_self
  rw [ip.property] at hread
  exact hread

@[simp] theorem sockaddrGetPort_setIp (addr : Sockaddr) (af : Af) (ip : Ip af) :
    sockaddrGetPort (addr.setIp af ip) = sockaddrGetPort addr := by
  have hread : (addr.setIp af ip).read 0 2 = addr.read 0 2 :=
    read_write_before (by cases af <;> decide)
  rw [sockaddrGetPort, hread]
  rfl

@[simp] theorem sa_family_setIp (addr : Sockaddr) (af : Af) (ip : Ip af) :
    (addr.setIp af ip).sa_family = some af := rfl

@[simp] theorem sockaddrGetPort_new : sockaddrGetPort sockaddrNew = 0 := rfl

/-! ## Texts -/

/-- The cuts of `sockaddr_parse` in its buffer: the family, and what
`addr_start` and `port_start` point to. -/
def splitAddress (buf : List UInt8) : Option (Af × List UInt8 × Option (List UInt8)) :=
  if buf.head? = some 91 then do
    let (addr, rest) ← CString.strchr 93 buf.tail
    some (.inet6, addr, (CString.strchr 58 rest).map Prod.snd)
  else
    match CString.strchr 58 buf with
    | some (addr, port_start) => some (.inet, addr, some port_start)
    | none => some (.inet, buf, none)

/-- `sockaddr_parse`: `none` is `NULL`. -/
def sockaddrParse (inet : Inet) (address : CString) : Option Sockaddr := do
  let buf := address.bytes.take (128 - 1)
  let (af, addr_start, port_start) ← splitAddress buf
  let addr ← sockaddrSetIpStr inet sockaddrNew (some af) addr_start
  match port_start with
  | none => some addr
  | some port_start =>
      let (port, endptr) := Numeral.strtol port_start
      if endptr ≠ [] then none else some (sockaddrSetPort addr (.ofInt port))

theorem noNul_colon : 0 ∉ ascii ":" := by decide

/-- `sockaddr_to_string`: what is written to `dest`; `none` is `-1`. -/
def sockaddrToString (inet : Inet) (addr : Option Sockaddr) (len : Nat) : Option CString :=
  match addr with
  | none => sockaddrGetIpStr inet none len
  | some addr => do
      let ip ← sockaddrGetIpStr inet (some addr) 64
      let port := sockaddrGetPort addr
      let text :=
        if addr.sa_family = some .inet6 then
          if port = 0 then ((CString.lit "[").append ip).append (.lit "]")
          else (((CString.lit "[").append ip).append (.lit "]:")).append (.decimal port.toNat)
        else if port = 0 then ip
        else (ip.append (.lit ":" noNul_colon)).append (.decimal port.toNat)
      some (text.snprintf len)

end CommonsC.Net
