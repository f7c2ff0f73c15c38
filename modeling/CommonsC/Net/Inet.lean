import CommonsC.Net.Sockaddr

/-!
# CommonsC.Net.Inet

What is known about `inet_pton` and `inet_ntop`.

`Inet.Documented` and `Inet.Prints` are what the theorems about addresses rest
on.  `Inet.canonical` is an instance that can be run.
-/

namespace CommonsC.Net

open CString Numeral

/-- What the C library documents about the texts that `inet_pton` accepts:
`ddd.ddd.ddd.ddd`, and groups of up to four hexadecimal digits with colons, the
last two of which can be written as an IPv4 address. -/
structure Inet.Documented (inet : Inet) : Prop where
  inet_text : ∀ text ip, inet.pton .inet text = some ip →
    text.length ≤ 15 ∧ ∀ b ∈ text, isDigit b = true ∨ b = 46
  inet6_text : ∀ text ip, inet.pton .inet6 text = some ip →
    text.length ≤ 45 ∧ ∀ b ∈ text, isDigit b = true ∨ b ∈ ascii "abcdefABCDEF:."

/-- What `inet_ntop` prints is the text of the address, without brackets, and
for IPv4 without colons. -/
structure Inet.Prints (inet : Inet) : Prop where
  pton_ntop : ∀ af ip, inet.pton af (inet.ntop af ip).bytes = some ip
  no_bracket : ∀ af ip, ∀ b ∈ (inet.ntop af ip).bytes, b ≠ 91 ∧ b ≠ 93
  no_colon : ∀ ip, 58 ∉ (inet.ntop .inet ip).bytes
  length_le : ∀ af ip, (inet.ntop af ip).strlen ≤ 45

/-! ## Canonical texts

Dotted quads, and eight groups of four hexadecimal digits: the C library reads
them, and prints the same but for its abbreviations of IPv6. -/

/-- The bytes of an IPv4 address. -/
def dotted : List UInt8 → List UInt8
  | [] => []
  | [a] => Numeral.decimal a.toNat
  | a :: rest => Numeral.decimal a.toNat ++ 46 :: dotted rest

/-- `n` bytes of an IPv4 address. -/
def undotted : Nat → List UInt8 → List UInt8
  | 0, _ => []
  | n + 1, text =>
      let (a, rest) := (strchr 46 text).getD (text, [])
      .ofNat (value a) :: undotted n rest

/-- `%x` of a digit. -/
def hexDigit (n : Nat) : UInt8 := .ofNat (if n < 10 then 48 + n else 87 + n)

def hexValue (b : UInt8) : Nat := if isDigit b then b.toNat - 48 else b.toNat - 87

/-- The bytes of an IPv6 address. -/
def grouped : List UInt8 → List UInt8
  | a :: b :: rest =>
      let group := [a.toNat / 16, a.toNat % 16, b.toNat / 16, b.toNat % 16].map hexDigit
      if rest = [] then group else group ++ 58 :: grouped rest
  | _ => []

/-- `n` pairs of bytes of an IPv6 address. -/
def ungrouped : Nat → List UInt8 → List UInt8
  | 0, _ => []
  | n + 1, text =>
      let digits := text.map hexValue
      .ofNat (digits.getD 0 0 * 16 + digits.getD 1 0) ::
        .ofNat (digits.getD 2 0 * 16 + digits.getD 3 0) :: ungrouped n (text.drop 5)

theorem length_undotted (n : Nat) (text : List UInt8) : (undotted n text).length = n := by
  induction n generalizing text with
  | zero => rfl
  | succ n ih => rw [undotted, List.length_cons, ih]

theorem length_ungrouped (n : Nat) (text : List UInt8) : (ungrouped n text).length = 2 * n := by
  induction n generalizing text with
  | zero => rfl
  | succ n ih => rw [ungrouped, List.length_cons, List.length_cons, ih]; omega

theorem dot_not_mem_decimal (n : Nat) : 46 ∉ Numeral.decimal n := fun h => by
  cases isDigit_of_mem_decimal h

theorem undotted_dotted {bytes : List UInt8} {n : Nat} (h : bytes.length = n) :
    undotted n (dotted bytes) = bytes := by
  induction bytes generalizing n with
  | nil => subst h; rfl
  | cons a rest ih =>
      subst h
      cases rest with
      | nil =>
          rw [dotted, List.length_singleton, undotted, strchr_eq_none.2 (dot_not_mem_decimal _)]
          simp [undotted, value_decimal]
      | cons b rest =>
          rw [dotted, List.length_cons, undotted, strchr_append (dot_not_mem_decimal _)]
          · simp only [Option.getD_some, value_decimal, ih rfl, UInt8.ofNat_toNat]
          · simp

theorem hexValue_hexDigit {n : Nat} (h : n < 16) : hexValue (hexDigit n) = n := by
  revert n
  decide

theorem ungrouped_grouped {bytes : List UInt8} {n : Nat} (h : bytes.length = 2 * n) :
    ungrouped n (grouped bytes) = bytes := by
  induction n generalizing bytes with
  | zero => rw [List.length_eq_zero_iff.1 h]; rfl
  | succ n ih =>
      match bytes, h with
      | a :: b :: rest, h =>
          have hrest : rest.length = 2 * n := by simpa [Nat.mul_succ] using h
          have hbyte : ∀ b : UInt8, UInt8.ofNat (hexValue (hexDigit (b.toNat / 16)) * 16 +
              hexValue (hexDigit (b.toNat % 16))) = b := fun b => by
            have hlt := b.toNat_lt
            rw [hexValue_hexDigit (by omega), hexValue_hexDigit (by omega), Nat.div_add_mod',
              UInt8.ofNat_toNat]
          rw [grouped]
          split
          · next hnil =>
              subst hnil
              obtain rfl : n = 0 := by
                rw [List.length_nil] at hrest
                omega
              simp [ungrouped, hbyte]
          · simp [ungrouped, hbyte, ih hrest]

/-- The bytes of a canonical text. -/
theorem mem_dotted {bytes : List UInt8} {b : UInt8} (h : b ∈ dotted bytes) :
    isDigit b = true ∨ b = 46 := by
  induction bytes using dotted.induct with
  | case1 => cases h
  | case2 a => exact .inl (isDigit_of_mem_decimal h)
  | case3 a rest hne ih =>
      rw [dotted.eq_3 _ _ hne, List.mem_append, List.mem_cons] at h
      rcases h with h | h | h
      · exact .inl (isDigit_of_mem_decimal h)
      · exact .inr h
      · exact ih h

theorem length_dotted_le (bytes : List UInt8) : (dotted bytes).length ≤ 4 * bytes.length - 1 := by
  have hdecimal : ∀ b : UInt8, (Numeral.decimal b.toNat).length ≤ 3 := fun b =>
    length_decimal_le (by decide) (b.toNat_lt.trans_le (by decide))
  induction bytes using dotted.induct with
  | case1 => exact Nat.le_refl 0
  | case2 a => exact hdecimal a
  | case3 a rest hne ih =>
      have ha := hdecimal a
      have hrest : rest.length ≠ 0 := by
        rw [ne_eq, List.length_eq_zero_iff]
        rintro rfl
        exact hne rfl
      rw [dotted.eq_3 _ _ hne, List.length_append, List.length_cons, List.length_cons]
      omega

theorem hexDigit_mem {n : Nat} (h : n < 16) :
    isDigit (hexDigit n) = true ∨ hexDigit n ∈ ascii "abcdefABCDEF:." := by
  revert n
  decide

theorem mem_grouped {bytes : List UInt8} {b : UInt8} (h : b ∈ grouped bytes) :
    isDigit b = true ∨ b ∈ ascii "abcdefABCDEF:." := by
  have hgroup : ∀ {a c : UInt8}, b ∈ [a.toNat / 16, a.toNat % 16, c.toNat / 16,
      c.toNat % 16].map hexDigit → isDigit b = true ∨ b ∈ ascii "abcdefABCDEF:." := by
    intro a c hb
    obtain ⟨n, hn, rfl⟩ := List.mem_map.1 hb
    have ha := a.toNat_lt
    have hc := c.toNat_lt
    refine hexDigit_mem ?_
    simp only [List.mem_cons, List.not_mem_nil, or_false] at hn
    omega
  induction bytes using grouped.induct with
  | case1 a c => exact hgroup (by simpa [grouped] using h)
  | case2 a c rest hne ih =>
      rw [grouped, if_neg hne, List.mem_append, List.mem_cons] at h
      rcases h with h | rfl | h
      · exact hgroup h
      · exact .inr (by decide)
      · exact ih h
  | case3 bytes hbytes => simp_all [grouped]

theorem length_grouped_le (bytes : List UInt8) :
    2 * (grouped bytes).length ≤ 5 * bytes.length := by
  induction bytes using grouped.induct with
  | case1 a c => simp [grouped]
  | case2 a c rest hne ih =>
      rw [grouped, if_neg hne]
      simp only [List.length_append, List.length_cons, List.length_map, List.length_nil]
      omega
  | case3 bytes hbytes => simp_all [grouped]

/-- The text of an IP address. -/
def canonicalText : (af : Af) → Ip af → List UInt8
  | .inet, ip => dotted ip.val
  | .inet6, ip => grouped ip.val

/-- The IP address of a canonical text. -/
def canonicalIp : (af : Af) → List UInt8 → Ip af
  | .inet, text => ⟨undotted 4 text, length_undotted 4 text⟩
  | .inet6, text => ⟨ungrouped 8 text, length_ungrouped 8 text⟩

theorem canonicalIp_text (af : Af) (ip : Ip af) : canonicalIp af (canonicalText af ip) = ip := by
  cases af with
  | inet => exact Subtype.ext (undotted_dotted ip.property)
  | inet6 => exact Subtype.ext (ungrouped_grouped ip.property)

theorem zero_not_mem_canonicalText (af : Af) (ip : Ip af) : 0 ∉ canonicalText af ip := by
  intro h
  cases af with
  | inet => rcases mem_dotted h with h | h <;> cases h
  | inet6 => exact absurd (mem_grouped h) (by decide)

/-- The conversions for canonical texts. -/
def Inet.canonical : Inet where
  pton af text :=
    if canonicalText af (canonicalIp af text) = text then some (canonicalIp af text) else none
  ntop af ip := ⟨canonicalText af ip, zero_not_mem_canonicalText af ip⟩

theorem canonical_pton {af : Af} {text : List UInt8} {ip : Ip af} :
    Inet.canonical.pton af text = some ip ↔ text = canonicalText af ip := by
  rw [Inet.canonical, ite_eq_iff]
  constructor
  · rintro (⟨htext, hip⟩ | ⟨-, hip⟩)
    · cases hip
      exact htext.symm
    · cases hip
  · rintro rfl
    rw [canonicalIp_text]
    exact .inl ⟨rfl, rfl⟩

theorem canonical_documented : Inet.canonical.Documented where
  inet_text text ip h := by
    rw [canonical_pton.1 h]
    refine ⟨(length_dotted_le _).trans ?_, fun b hb => mem_dotted hb⟩
    rw [ip.property]
    decide
  inet6_text text ip h := by
    rw [canonical_pton.1 h]
    refine ⟨?_, fun b hb => mem_grouped hb⟩
    have hlen := length_grouped_le ip.val
    rw [ip.property] at hlen
    exact Nat.le_of_mul_le_mul_left (hlen.trans (by decide : 5 * 16 ≤ 2 * 45)) (by decide)

theorem canonical_prints : Inet.canonical.Prints where
  pton_ntop af ip := canonical_pton.2 rfl
  no_bracket af ip b hb := by
    cases af with
    | inet =>
        rcases mem_dotted hb with h | rfl
        · constructor <;>
            · rintro rfl
              cases h
        · decide
    | inet6 =>
        rcases mem_grouped hb with h | h
        · constructor <;>
            · rintro rfl
              cases h
        · constructor <;>
            · rintro rfl
              exact absurd h (by decide)
  no_colon ip hb := by
    rcases mem_dotted hb with h | h <;> cases h
  length_le af ip := by
    cases af with
    | inet => exact (canonical_documented.inet_text _ ip (canonical_pton.2 rfl)).1.trans (by decide)
    | inet6 => exact (canonical_documented.inet6_text _ ip (canonical_pton.2 rfl)).1

theorem canonical_colon (ip : Ip .inet6) : 58 ∈ (Inet.canonical.ntop .inet6 ip).bytes := by
  obtain ⟨bytes, hlen⟩ := ip
  match bytes, hlen with
  | a :: b :: c :: rest, hlen =>
      simp [Inet.canonical, canonicalText, grouped]

end CommonsC.Net
