import CommonsC.Net.Parse

/-!
# CommonsC.Net.Compare

Cloning and comparing addresses.

`sockaddr_clone` copies a `struct sockaddr`, the first 16 bytes of an address,
and `sockaddr_compare` compares as much.  What the accessors read is elsewhere:
all of an IPv4 address and half of an IPv6 address is in these bytes, and behind
an IPv4 address they go on with `sin_zero`, which is not part of it.
-/

namespace CommonsC.Net

open CString

/-! ## The functions -/

/-- `sockaddr_set_ip`: `ip` is what the pointer leads to, read as an address of
each family. -/
def sockaddrSetIp (addr : Sockaddr) (family : Option Af) (ip : (af : Af) → Ip af) :
    Int × Sockaddr :=
  match family with
  | some af => (0, addr.setIp af (ip af))
  | none => (-1, addr)

/-- `sizeof(((sockaddr_t *) 0)->sa_data)`. -/
def saDataSize : Nat := 14

theorem length_read {addr : Sockaddr} {offset n : Nat} (h : offset + n ≤ 126) :
    (addr.read offset n).length = n := by
  rw [Sockaddr.read, List.length_take, List.length_drop, addr.length_eq]
  omega

/-- `sockaddr_clone`. -/
def sockaddrClone (addr : Sockaddr) : Sockaddr :=
  Sockaddr.write { sockaddrNew with sa_family := addr.sa_family } 0 (addr.read 0 saDataSize)
    (by rw [length_read (by decide)]; decide)

/-- `sa_family` in memory: `AF_UNSPEC`, `AF_INET` and `AF_INET6`. -/
def familyBytes : Option Af → List UInt8
  | none => [0, 0]
  | some .inet => [2, 0]
  | some .inet6 => [10, 0]

/-- The bytes of a `sockaddr_t`. -/
def Sockaddr.bytes (addr : Sockaddr) : List UInt8 :=
  familyBytes addr.sa_family ++ addr.read 0 saDataSize

/-- `sockaddr_compare`. -/
def sockaddrCompare (a b : Sockaddr) : Int := memcmp a.bytes b.bytes

/-! ## Addresses that mean the same -/

/-- Two addresses have the same family, IP address and port. -/
structure SameAddress (a b : Sockaddr) : Prop where
  sa_family : a.sa_family = b.sa_family
  ip : ∀ af, a.sa_family = some af → a.ip af = b.ip af
  port : sockaddrGetPort a = sockaddrGetPort b

theorem sockaddrGetIpStr_congr (inet : Inet) {a b : Sockaddr} (h : SameAddress a b) (len : Nat) :
    sockaddrGetIpStr inet (some a) len = sockaddrGetIpStr inet (some b) len := by
  simp only [sockaddrGetIpStr, ← h.sa_family]
  cases hfam : a.sa_family with
  | none => rfl
  | some af => exact congrArg (inet.inetNtop af · len) (h.ip af hfam)

theorem sockaddrToString_congr (inet : Inet) {a b : Sockaddr} (h : SameAddress a b) (len : Nat) :
    sockaddrToString inet (some a) len = sockaddrToString inet (some b) len := by
  simp only [sockaddrToString, sockaddrGetIpStr_congr inet h, h.sa_family, h.port]

/-! ## Where the fields are -/

/-- `sin_zero`. -/
def Sockaddr.sinZero (addr : Sockaddr) : List UInt8 := addr.read 6 8

/-- `sin6_flowinfo`. -/
def Sockaddr.flowinfo (addr : Sockaddr) : List UInt8 := addr.read 2 4

/-- `sin6_scope_id`. -/
def Sockaddr.scopeId (addr : Sockaddr) : List UInt8 := addr.read 22 4

theorem read_add (addr : Sockaddr) (offset m n : Nat) :
    addr.read offset (m + n) = addr.read offset m ++ addr.read (offset + m) n := by
  rw [Sockaddr.read, Sockaddr.read, Sockaddr.read, List.take_add, List.drop_drop]

theorem read_add_inj {a b : Sockaddr} {offset m n : Nat} (h : offset + m ≤ 126) :
    a.read offset (m + n) = b.read offset (m + n) ↔
      a.read offset m = b.read offset m ∧ a.read (offset + m) n = b.read (offset + m) n := by
  rw [read_add, read_add]
  constructor
  · exact fun heq => List.append_inj heq (by rw [length_read h, length_read h])
  · rintro ⟨hm, hn⟩
    rw [hm, hn]

theorem ip_inet6_val (addr : Sockaddr) :
    (addr.ip .inet6).val = addr.read 6 8 ++ addr.read 14 8 := read_add addr 6 8 8

theorem take_ip_inet6 (addr : Sockaddr) : (addr.ip .inet6).val.take 8 = addr.read 6 8 := by
  rw [ip_inet6_val, List.take_left' (length_read (by decide))]

theorem drop_ip_inet6 (addr : Sockaddr) : (addr.ip .inet6).val.drop 8 = addr.read 14 8 := by
  rw [ip_inet6_val, List.drop_left' (length_read (by decide))]

theorem ntohs_inj {s t : List UInt8} (hs : s.length = 2) (ht : t.length = 2) :
    ntohs s = ntohs t ↔ s = t := by
  match s, hs, t, ht with
  | [a, b], _, [c, d], _ =>
      have ha := a.toNat_lt
      have hb := b.toNat_lt
      have hc := c.toNat_lt
      have hd := d.toNat_lt
      rw [← UInt16.toNat_inj, List.cons.injEq, List.cons.injEq, ← UInt8.toNat_inj,
        ← UInt8.toNat_inj]
      simp only [ntohs, List.getD_cons_zero, List.getD_cons_succ, UInt16.toNat_ofNat', and_true]
      omega

theorem sockaddrGetPort_inj {a b : Sockaddr} :
    sockaddrGetPort a = sockaddrGetPort b ↔ a.read 0 2 = b.read 0 2 :=
  ntohs_inj (length_read (by decide)) (length_read (by decide))

theorem familyBytes_inj {f g : Option Af} : familyBytes f = familyBytes g ↔ f = g := by
  rcases f with _ | _ | _ <;> rcases g with _ | _ | _ <;> decide

/-! ## Cloning -/

/-- A call that changes an address. -/
inductive Change
  | set_ip (family : Option Af) (ip : (af : Af) → Ip af)
  | set_port (port : UInt16)

def Change.apply (addr : Sockaddr) : Change → Sockaddr
  | .set_ip family ip => (sockaddrSetIp addr family ip).2
  | .set_port port => sockaddrSetPort addr port

/-- An address from `sockaddr_new` and calls that change it. -/
def changed (changes : List Change) : Sockaddr := changes.foldl Change.apply sockaddrNew

theorem read_clone (addr : Sockaddr) :
    (sockaddrClone addr).read 0 14 = addr.read 0 14 := by
  have hread : (sockaddrClone addr).read 0 (addr.read 0 saDataSize).length = addr.read 0 14 :=
    read_write_self
  rwa [length_read (by decide)] at hread

/-- Behind the copied bytes a clone is as `sockaddr_new` left it. -/
theorem read_clone_after (addr : Sockaddr) {pos n : Nat} (h : 14 ≤ pos) :
    (sockaddrClone addr).read pos n = sockaddrNew.read pos n :=
  read_write_after (by rw [length_read (by decide)]; exact h)

/-- What is in the first fourteen bytes is the same in a clone. -/
theorem read_clone_within (addr : Sockaddr) {pos n : Nat} (h : pos + n ≤ 14) :
    (sockaddrClone addr).read pos n = addr.read pos n := by
  have hwithin : ∀ a : Sockaddr, a.read pos n = ((a.read 0 14).drop pos).take n := by
    intro a
    rw [Sockaddr.read, Sockaddr.read, List.drop_zero, List.drop_take, List.take_take,
      Nat.min_eq_left (by omega)]
  rw [hwithin, hwithin, read_clone]

theorem sameAddress_clone (addr : Sockaddr) :
    SameAddress addr (sockaddrClone addr) ↔
      (addr.sa_family = some .inet6 → (addr.ip .inet6).val.drop 8 = List.replicate 8 0) := by
  have hafter : (sockaddrClone addr).read 14 8 = List.replicate 8 0 :=
    read_clone_after addr (Nat.le_refl 14)
  constructor
  · intro h hfam
    rw [h.ip .inet6 hfam, drop_ip_inet6, hafter]
  · intro h
    refine ⟨rfl, fun af hfam => Subtype.ext ?_, ?_⟩
    · cases af with
      | inet => exact (read_clone_within addr (by decide)).symm
      | inet6 =>
          have hrest := h hfam
          rw [drop_ip_inet6] at hrest
          rw [ip_inet6_val, ip_inet6_val, hrest, hafter, read_clone_within addr (by decide)]
    · exact congrArg ntohs (read_clone_within addr (by decide)).symm

/-- **A clone is faithful unless it is of an IPv6 address that goes on behind
its eighth byte.** -/
theorem sockaddrClone_faithful (inet : Inet) (changes : List Change) :
    (SameAddress (changed changes) (sockaddrClone (changed changes)) ∧
        ∀ len, sockaddrToString inet (some (sockaddrClone (changed changes))) len =
          sockaddrToString inet (some (changed changes)) len) ↔
      ((changed changes).sa_family = some .inet6 →
        ((changed changes).ip .inet6).val.drop 8 = List.replicate 8 0) := by
  rw [← sameAddress_clone]
  constructor
  · exact And.left
  · exact fun h => ⟨h, fun len => (sockaddrToString_congr inet h len).symm⟩

/-- `::n` and `0.0.0.n`. -/
def lowIp (n : UInt8) : (af : Af) → Ip af
  | .inet => ⟨[0, 0, 0, n], rfl⟩
  | .inet6 => ⟨List.replicate 15 0 ++ [n], rfl⟩

/-- The clone of `::1` is `::`. -/
theorem sockaddrClone_loses_half :
    ¬(SameAddress (changed [.set_ip (some .inet6) (lowIp 1)])
        (sockaddrClone (changed [.set_ip (some .inet6) (lowIp 1)])) ∧
      ∀ len, sockaddrToString Inet.canonical
          (some (sockaddrClone (changed [.set_ip (some .inet6) (lowIp 1)]))) len =
        sockaddrToString Inet.canonical (some (changed [.set_ip (some .inet6) (lowIp 1)])) len) :=
  fun h => absurd (congrArg Subtype.val (h.1.ip .inet6 rfl)) (by decide)

/-! ## Comparing -/

/-- The addresses that can be built. -/
inductive Built (inet : Inet) : Sockaddr → Prop
  | new : Built inet sockaddrNew
  | parse {address : CString} {addr : Sockaddr} :
      sockaddrParse inet address = some addr → Built inet addr
  | change {addr : Sockaddr} (change : Change) : Built inet addr → Built inet (change.apply addr)

/-- Flow info and scope id are zero where there are such fields. -/
structure ZeroFlow (addr : Sockaddr) : Prop where
  flowinfo : addr.sa_family = some .inet6 → addr.flowinfo = List.replicate 4 0
  scopeId : addr.sa_family = some .inet6 → addr.scopeId = List.replicate 4 0

/-- Nothing but the port has been set in an address without a family. -/
def BlankUnspec (addr : Sockaddr) : Prop :=
  addr.sa_family = none → addr.read 2 12 = List.replicate 12 0

theorem blankUnspec_apply {addr : Sockaddr} (change : Change) (h : BlankUnspec addr) :
    BlankUnspec (change.apply addr) := by
  intro hfam
  cases change with
  | set_ip family ip =>
      cases family with
      | none => exact h hfam
      | some af => cases hfam
  | set_port port =>
      have hread : (sockaddrSetPort addr port).read 2 12 = addr.read 2 12 :=
        read_write_after (by simp [htons])
      exact hread.trans (h hfam)

/-- A parsed address has a family. -/
theorem sa_family_of_parse {inet : Inet} {address : CString} {addr : Sockaddr}
    (h : sockaddrParse inet address = some addr) : addr.sa_family ≠ none := by
  simp only [sockaddrParse, sockaddrSetIpStr, Option.bind_eq_bind, Option.bind_eq_some_iff,
    Option.some.injEq] at h
  obtain ⟨⟨af, addr_start, port_start⟩, -, addr', ⟨af', -, ip, -, rfl⟩, hport⟩ := h
  cases port_start with
  | none =>
      cases hport
      exact Option.some_ne_none _
  | some port_start =>
      dsimp only at hport
      split at hport
      · cases hport
      · cases hport
        exact Option.some_ne_none _

theorem blankUnspec_of_built {inet : Inet} {addr : Sockaddr} (h : Built inet addr) :
    BlankUnspec addr := by
  induction h with
  | new => exact fun _ => rfl
  | parse hparse => exact fun hfam => absurd hfam (sa_family_of_parse hparse)
  | change change _ ih => exact blankUnspec_apply change ih

/-- What `sockaddr_compare` looks at. -/
theorem sockaddrCompare_eq_zero {a b : Sockaddr} :
    sockaddrCompare a b = 0 ↔
      a.sa_family = b.sa_family ∧ sockaddrGetPort a = sockaddrGetPort b ∧
        a.read 2 12 = b.read 2 12 := by
  have hfam : ∀ addr : Sockaddr, (familyBytes addr.sa_family).length = 2 := by
    intro addr
    rcases addr.sa_family with _ | _ | _ <;> rfl
  have hlen : a.bytes.length = b.bytes.length := by
    rw [Sockaddr.bytes, Sockaddr.bytes, List.length_append, List.length_append, hfam, hfam,
      length_read (by decide), length_read (by decide)]
  have hdata : a.read 0 saDataSize = b.read 0 saDataSize ↔
      a.read 0 2 = b.read 0 2 ∧ a.read 2 12 = b.read 2 12 :=
    read_add_inj (m := 2) (n := 12) (by decide)
  rw [sockaddrCompare, memcmp_eq_zero hlen, sockaddrGetPort_inj, ← hdata, ← familyBytes_inj]
  constructor
  · exact fun h => List.append_inj h (by rw [hfam, hfam])
  · rintro ⟨hf, hd⟩
    rw [Sockaddr.bytes, Sockaddr.bytes, hf, hd]

/-- The bytes that are compared and those that count agree in whether two
addresses of one family with one port differ. -/
structure Comparable (a b : Sockaddr) : Prop where
  /-- Nothing is left in `sin_zero` that tells apart equal addresses. -/
  inet : a.sa_family = some .inet → b.sa_family = some .inet →
    sockaddrGetPort a = sockaddrGetPort b → a.ip .inet = b.ip .inet → a.sinZero = b.sinZero
  /-- No two addresses differ only behind the eighth byte. -/
  inet6 : a.sa_family = some .inet6 → b.sa_family = some .inet6 →
    sockaddrGetPort a = sockaddrGetPort b →
    (a.ip .inet6).val.take 8 = (b.ip .inet6).val.take 8 →
      (a.ip .inet6).val.drop 8 = (b.ip .inet6).val.drop 8

theorem ip_inet6_inj {a b : Sockaddr} :
    a.ip .inet6 = b.ip .inet6 ↔
      (a.ip .inet6).val.take 8 = (b.ip .inet6).val.take 8 ∧
        (a.ip .inet6).val.drop 8 = (b.ip .inet6).val.drop 8 := by
  constructor
  · intro h
    rw [h]
    exact ⟨rfl, rfl⟩
  · rintro ⟨htake, hdrop⟩
    refine Subtype.ext ?_
    rw [← List.take_append_drop 8 (a.ip .inet6).val, htake, hdrop, List.take_append_drop]

theorem read_inet {a b : Sockaddr} :
    a.read 2 12 = b.read 2 12 ↔ a.ip .inet = b.ip .inet ∧ a.sinZero = b.sinZero := by
  have hip : a.ip .inet = b.ip .inet ↔ a.read 2 4 = b.read 2 4 := Subtype.ext_iff
  rw [hip]
  exact read_add_inj (n := 8) (by decide : 2 + 4 ≤ 126)

theorem read_inet6 {a b : Sockaddr} :
    a.read 2 12 = b.read 2 12 ↔
      a.flowinfo = b.flowinfo ∧ (a.ip .inet6).val.take 8 = (b.ip .inet6).val.take 8 := by
  rw [take_ip_inet6, take_ip_inet6]
  exact read_add_inj (n := 8) (by decide : 2 + 4 ≤ 126)

/-- Of one family and port, the bytes that are compared say the same as the IP
addresses. -/
theorem comparable_iff {inet : Inet} {a b : Sockaddr} (ha : Built inet a) (hb : Built inet b)
    (hfa : ZeroFlow a) (hfb : ZeroFlow b) :
    Comparable a b ↔ (a.sa_family = b.sa_family → sockaddrGetPort a = sockaddrGetPort b →
      (a.read 2 12 = b.read 2 12 ↔ ∀ af, a.sa_family = some af → a.ip af = b.ip af)) := by
  have hip : ∀ {af}, a.sa_family = some af →
      ((∀ af', a.sa_family = some af' → a.ip af' = b.ip af') ↔ a.ip af = b.ip af) := by
    intro af hfam
    refine ⟨fun h => h af hfam, fun h af' hfam' => ?_⟩
    cases hfam.symm.trans hfam'
    exact h
  have hflow : a.sa_family = some .inet6 → b.sa_family = some .inet6 → a.flowinfo = b.flowinfo :=
    fun h h' => (hfa.flowinfo h).trans (hfb.flowinfo h').symm
  constructor
  · intro h hfam hport
    cases hf : a.sa_family with
    | none =>
        refine iff_of_true ?_ nofun
        rw [blankUnspec_of_built ha hf, blankUnspec_of_built hb (hfam ▸ hf)]
    | some af =>
        rw [← hf, hip hf]
        have hf' : b.sa_family = some af := hfam ▸ hf
        cases af with
        | inet =>
            rw [read_inet]
            exact ⟨And.left, fun heq => ⟨heq, h.inet hf hf' hport heq⟩⟩
        | inet6 =>
            rw [read_inet6, ip_inet6_inj]
            exact ⟨fun heq => ⟨heq.2, h.inet6 hf hf' hport heq.2⟩,
              fun heq => ⟨hflow hf hf', heq.1⟩⟩
  · intro h
    constructor
    · intro hf hf' hport heq
      have hread := (h (hf.trans hf'.symm) hport).2 ((hip hf).2 heq)
      exact (read_inet.1 hread).2
    · intro hf hf' hport htake
      have hread := (h (hf.trans hf'.symm) hport).1 (read_inet6.2 ⟨hflow hf hf', htake⟩)
      exact (ip_inet6_inj.1 ((hip hf).1 hread)).2

/-- **`sockaddr_compare` decides equality of exactly the addresses that are told
apart where it looks.** -/
theorem sockaddrCompare_decides (inet : Inet) {a b : Sockaddr} (ha : Built inet a)
    (hb : Built inet b) (hfa : ZeroFlow a) (hfb : ZeroFlow b) :
    (sockaddrCompare a b = 0 ↔ SameAddress a b) ↔ Comparable a b := by
  have hsame : SameAddress a b ↔ a.sa_family = b.sa_family ∧
      sockaddrGetPort a = sockaddrGetPort b ∧ ∀ af, a.sa_family = some af → a.ip af = b.ip af :=
    ⟨fun h => ⟨h.sa_family, h.port, h.ip⟩, fun h => ⟨h.1, h.2.2, h.2.1⟩⟩
  rw [sockaddrCompare_eq_zero, hsame, comparable_iff ha hb hfa hfb, and_congr_right_iff]
  exact imp_congr_right fun _ => and_congr_right_iff

/-- `[::n]:80`. -/
def lowAddress (n : UInt8) : Sockaddr := changed [.set_ip (some .inet6) (lowIp n), .set_port 80]

theorem built_changed (inet : Inet) (changes : List Change) : Built inet (changed changes) := by
  suffices h : ∀ addr, Built inet addr → Built inet (changes.foldl Change.apply addr) from
    h sockaddrNew .new
  induction changes with
  | nil => exact fun _ h => h
  | cons change changes ih => exact fun addr h => ih _ (h.change change)

theorem zeroFlow_lowAddress (n : UInt8) : ZeroFlow (lowAddress n) where
  flowinfo _ := rfl
  scopeId _ := rfl

/-- `[::n]:81`. -/
def otherPort (n : UInt8) : Sockaddr := changed [.set_ip (some .inet6) (lowIp n), .set_port 81]

/-- Equal addresses, and two with different ports. -/
theorem sockaddrCompare_decides_loopback :
    (sockaddrCompare (lowAddress 1) (lowAddress 1) = 0 ↔
        SameAddress (lowAddress 1) (lowAddress 1)) ∧
      (sockaddrCompare (lowAddress 1) (otherPort 1) = 0 ↔
        SameAddress (lowAddress 1) (otherPort 1)) := by
  constructor
  · exact (sockaddrCompare_decides Inet.canonical (built_changed _ _) (built_changed _ _)
      (zeroFlow_lowAddress 1) (zeroFlow_lowAddress 1)).2 ⟨nofun, fun _ _ _ _ => rfl⟩
  · exact (sockaddrCompare_decides Inet.canonical (built_changed _ _) (built_changed _ _)
      (zeroFlow_lowAddress 1) ⟨fun _ => rfl, fun _ => rfl⟩).2
        ⟨nofun, fun _ _ hport => absurd hport (by decide)⟩

/-- `[::1]:80` and `[::2]:80` are told to be equal. -/
theorem sockaddrCompare_misses_half :
    ¬∀ a b : Sockaddr, Built Inet.canonical a → Built Inet.canonical b → ZeroFlow a → ZeroFlow b →
      (sockaddrCompare a b = 0 ↔ SameAddress a b) := by
  intro h
  have hzero : sockaddrCompare (lowAddress 1) (lowAddress 2) = 0 := by decide
  have hsame := (h _ _ (built_changed _ _) (built_changed _ _) (zeroFlow_lowAddress 1)
    (zeroFlow_lowAddress 2)).1 hzero
  exact absurd (congrArg Subtype.val (hsame.ip .inet6 rfl)) (by decide)

end CommonsC.Net
