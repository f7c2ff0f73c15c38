import CommonsC.Net.Hostport

/-!
# CommonsC.Net.HostGrammar

What `hostport_parse` accepts besides IP addresses, against the grammar of host
names with ports.

The scan and the grammar are compared from any point inside a label: the scan
keeps the length of the label so far, and the grammar its characters.  A host
name has no colon, so a string is cut into name and port in one way only, and
what is left is whether the cut is one that the grammar has.
-/

namespace CommonsC.Net

open CString Numeral

/-! ## The grammar -/

/-- A label: 1 to 63 letters, digits or hyphens. -/
structure Label (l : List UInt8) : Prop where
  ne_nil : l ≠ []
  length_le : l.length ≤ 63
  chars : ∀ c ∈ l, isLabelChar c = true

/-- Labels with single dots between them, and at most one dot behind them. -/
inductive Labels : List UInt8 → Prop
  | last {l : List UInt8} : Label l → Labels l
  | dot {l : List UInt8} : Label l → Labels (l ++ [46])
  | cons {l rest : List UInt8} : Label l → Labels rest → Labels (l ++ 46 :: rest)

/-- Host names. -/
structure HostName (name : List UInt8) : Prop where
  length_pos : 1 ≤ name.length
  length_le : name.length ≤ 253
  labels : Labels name

/-- A host name, and a colon with the digits of a port or nothing. -/
inductive HostText : List UInt8 → List UInt8 → Nat → Prop
  | mk {name after : List UInt8} {port : Nat} :
      HostName name → PortText after port → HostText (name ++ after) name port

/-! ## The scan and the grammar -/

section

variable {n k : Nat} {l s name p : List UInt8}

theorem Labels.ne_nil (h : Labels s) : s ≠ [] := by
  cases h with
  | last hl => exact hl.ne_nil
  | dot _ => exact List.append_ne_nil_of_right_ne_nil _ (List.cons_ne_nil _ _)
  | cons _ _ => exact List.append_ne_nil_of_right_ne_nil _ (List.cons_ne_nil _ _)

/-- What a character of a name is, and what it does to the label it is in. -/
theorem scanChar_seglen {c : UInt8} {seglen : Nat} (h : scanChar seglen c = .seglen k) :
    (c = 46 ∧ seglen ≠ 0 ∧ k = 0) ∨
      (isLabelChar c = true ∧ seglen + 1 ≤ 63 ∧ k = seglen + 1) := by
  rw [scanChar] at h
  split at h
  · next hdot =>
      split at h
      · cases h
      · next hne =>
          cases h
          exact .inl ⟨hdot, hne, rfl⟩
  · split at h
    · next hchar =>
        split at h
        · cases h
        · cases h
          exact .inr ⟨hchar, by omega, rfl⟩
    · cases h

/-- From inside a label, what is scanned makes labels of it. -/
theorem labels_of_scanHostname (hl : l ≠ [] → Label l)
    (h : scanHostname n l.length s = some (name, p)) : l ++ name = [] ∨ Labels (l ++ name) := by
  induction s generalizing n l name with
  | nil =>
      cases h
      rw [List.append_nil]
      exact or_iff_not_imp_left.2 fun hne => .last (hl hne)
  | cons c s ih =>
      rcases scanHostname_cons h with ⟨rfl, -⟩ | ⟨k, name', -, hc, hscan, rfl⟩
      · rw [List.append_nil]
        exact or_iff_not_imp_left.2 fun hne => .last (hl hne)
      · right
        rcases scanChar_seglen hc with ⟨rfl, hne, rfl⟩ | ⟨hchar, hlen, rfl⟩
        · -- A dot ends the label, and another one begins, or nothing.
          have hlabel := hl (List.ne_nil_of_length_pos (Nat.pos_of_ne_zero hne))
          rcases ih (l := []) (fun h => absurd rfl h) hscan with hnil | hrest
          · rw [List.nil_append] at hnil
            rw [hnil]
            exact .dot hlabel
          · exact .cons hlabel hrest
        · have hgrown : Label (l ++ [c]) := by
            refine ⟨by simp, by simpa using hlen, fun d hd => ?_⟩
            rcases List.mem_append.1 hd with hd | hd
            · exact (hl (List.ne_nil_of_mem hd)).chars d hd
            · rw [List.mem_singleton.1 hd]
              exact hchar
          have hscan' : scanHostname (n + 1) (l ++ [c]).length s = some (name', p) := by
            rw [List.length_append]
            exact hscan
          have hrest := ih (fun _ => hgrown) hscan'
          rw [List.append_assoc, List.singleton_append] at hrest
          exact hrest.resolve_left (by simp)

/-- The characters of a label are scanned. -/
theorem scanHostname_label (hchars : ∀ c ∈ l, isLabelChar c = true) (hlen : k + l.length ≤ 63)
    (hn : n + l.length ≤ 253) (s : List UInt8) :
    scanHostname n k (l ++ s) =
      (scanHostname (n + l.length) (k + l.length) s).map fun (name, p) => (l ++ name, p) := by
  induction l generalizing n k with
  | nil => simp
  | cons c l ih =>
      rw [List.length_cons] at hlen hn
      have hchar := hchars c List.mem_cons_self
      have hdot : c ≠ 46 := by
        rintro rfl
        cases hchar
      have hc : scanChar k c = .seglen (k + 1) := by
        rw [scanChar, if_neg hdot, if_pos hchar, if_neg (by omega)]
      rw [List.cons_append, scanHostname, if_pos (by omega), hc]
      simp only
      rw [ih (fun d hd => hchars d (List.mem_cons_of_mem _ hd)) (by omega) (by omega),
        List.length_cons, Option.map_map, Nat.add_right_comm n, Nat.add_right_comm k]
      rfl

/-- A dot behind a label is scanned. -/
theorem scanHostname_dot (hk : k ≠ 0) (hn : n < 253) (s : List UInt8) :
    scanHostname n k (46 :: s) =
      (scanHostname (n + 1) 0 s).map fun (name, p) => (46 :: name, p) := by
  have hc : scanChar k 46 = .seglen 0 := by rw [scanChar, if_pos rfl, if_neg hk]
  rw [scanHostname, if_pos hn, hc]

/-- Labels are scanned up to the end of the string, or a colon. -/
theorem scanHostname_labels (h : Labels name) (hn : n + name.length ≤ 253)
    (hp : p = [] ∨ p.head? = some 58) : scanHostname n 0 (name ++ p) = some (name, p) := by
  have hstop : ∀ n k, scanHostname n k p = some ([], p) := by
    intro n k
    cases p with
    | nil => rfl
    | cons c q =>
        rcases hp with hp | hp
        · cases hp
        · cases hp
          exact scanHostname_colon q
  induction h generalizing n with
  | last hl =>
      rw [scanHostname_label hl.chars (by have := hl.length_le; omega) hn, hstop]
      simp
  | @dot l hl =>
      have hpos := List.length_pos_iff.2 hl.ne_nil
      rw [List.length_append, List.length_singleton] at hn
      rw [List.append_assoc,
        scanHostname_label hl.chars (by have := hl.length_le; omega) (by omega),
        List.singleton_append, scanHostname_dot (by omega) (by omega), hstop]
      rfl
  | @cons l rest hl _ ih =>
      have hpos := List.length_pos_iff.2 hl.ne_nil
      rw [List.length_append, List.length_cons] at hn
      rw [List.append_assoc,
        scanHostname_label hl.chars (by have := hl.length_le; omega) (by omega),
        List.cons_append, scanHostname_dot (by omega) (by omega), ih (by omega)]
      rfl

/-- What is cut off is nothing or a host name. -/
theorem hostName_of_findHostnameEnd (h : findHostnameEnd s = some (name, p)) :
    name = [] ∨ HostName name := by
  obtain ⟨-, hlen, -⟩ := eq_of_scanHostname h
  rcases labels_of_scanHostname (l := []) (fun h => absurd rfl h) h with hnil | hlabels
  · exact .inl hnil
  · rw [List.nil_append] at hlabels
    exact .inr ⟨List.length_pos_iff.2 hlabels.ne_nil, by omega, hlabels⟩

theorem findHostnameEnd_append (h : name = [] ∨ HostName name) (hp : p = [] ∨ p.head? = some 58) :
    findHostnameEnd (name ++ p) = some (name, p) := by
  rcases h with rfl | hname
  · rcases hp with rfl | hp
    · rfl
    · cases p with
      | nil => rfl
      | cons c q =>
          cases hp
          exact scanHostname_colon q
  · exact scanHostname_labels hname.labels (by have := hname.length_le; omega) hp

end

/-! ## What is accepted -/

/-- The cuts that `hostport_parse` goes by: nothing or a host name, and behind
it nothing, or a colon and a text at whose front `strtoul` reads a number. -/
structure Cuts (s name after : List UInt8) : Prop where
  eq_append : s = name ++ after
  name : name = [] ∨ HostName name
  after : after = [] ∨ ∃ text, after = 58 :: text ∧ (strtoul text).2 ≠ text

/-- Such a cut is one of the grammar: there is a name, and the text of a port
is digits only and fits. -/
def WellCut (s : List UInt8) : Prop :=
  ∀ name after, Cuts s name after → name ≠ [] ∧ ∃ port, PortText after port

/-- `hostport_parse` is right about a string: there is a host exactly if the
string is the text of one, and then it has that name and that port. -/
def ParsesHost (inet : Inet) (s : CString) : Prop :=
  ((∃ host, hostportParse inet s = some host) ↔ ∃ name port, HostText s.bytes name port) ∧
  ∀ host name port, hostportParse inet s = some host → HostText s.bytes name port →
    (∃ hostname, hostportGetHostname host = some hostname ∧ hostname.bytes = name) ∧
    (hostportGetPort host).toNat = port

section

variable {s name after : List UInt8}

theorem portAfter_cons (c : UInt8) (text : List UInt8) :
    portAfter (c :: text) =
      if c = 58 ∧ (strtoul text).2 ≠ text then some (.ofNat (strtoul text).1) else none := by
  rw [portAfter]
  split
  · next hcolon =>
      cases hcolon
      rw [List.tail_cons]
      change (if (strtoul text).2 = text then none else some (UInt16.ofNat (strtoul text).1)) = _
      by_cases hread : (strtoul text).2 = text
      · rw [if_pos hread, if_neg fun h => h.2 hread]
      · rw [if_neg hread, if_pos ⟨rfl, hread⟩]
  · next hcolon =>
      rw [if_neg (List.cons_ne_nil _ _), if_neg fun h => hcolon (congrArg some h.1)]

theorem portAfter_eq_some {port : UInt16} :
    portAfter after = some port ↔
      (after = [] ∧ port = 0) ∨
        ∃ text, after = 58 :: text ∧ (strtoul text).2 ≠ text ∧ port = .ofNat (strtoul text).1 := by
  cases after with
  | nil =>
      constructor
      · intro h
        cases h
        exact .inl ⟨rfl, rfl⟩
      · rintro (⟨-, rfl⟩ | ⟨text, htext, -⟩)
        · rfl
        · cases htext
  | cons c text =>
      rw [portAfter_cons]
      constructor
      · intro h
        split at h
        · next hread =>
            cases h
            exact .inr ⟨text, congrArg (· :: text) hread.1, hread.2, rfl⟩
        · cases h
      · rintro (⟨hnil, -⟩ | ⟨text', htext, hread, rfl⟩)
        · cases hnil
        · cases htext
          exact if_pos ⟨rfl, hread⟩

/-- What is accepted is cut so. -/
theorem Cuts.of_parse {port : UInt16} (hscan : findHostnameEnd s = some (name, after))
    (hport : portAfter after = some port) : Cuts s name after := by
  refine ⟨(eq_of_scanHostname hscan).1, hostName_of_findHostnameEnd hscan, ?_⟩
  rcases portAfter_eq_some.1 hport with ⟨hnil, -⟩ | ⟨text, htext, hread, -⟩
  · exact .inl hnil
  · exact .inr ⟨text, htext, hread⟩

/-- What is cut so is accepted. -/
theorem Cuts.parse (h : Cuts s name after) :
    findHostnameEnd s = some (name, after) ∧ ∃ port, portAfter after = some port := by
  obtain ⟨rfl, hname, hafter⟩ := h
  rcases hafter with rfl | ⟨text, rfl, hread⟩
  · exact ⟨findHostnameEnd_append hname (.inl rfl), 0, rfl⟩
  · exact ⟨findHostnameEnd_append hname (.inr rfl), _,
      portAfter_eq_some.2 (.inr ⟨text, rfl, hread, rfl⟩)⟩

/-- The text of a host is cut into its name and its port. -/
theorem HostText.cuts {port : Nat} (h : HostText s name port) :
    ∃ after, Cuts s name after ∧ PortText after port ∧ name ≠ [] := by
  obtain ⟨hname, hport⟩ := h
  refine ⟨_, ⟨rfl, .inr hname, ?_⟩, hport, List.ne_nil_of_length_pos hname.length_pos⟩
  cases hport with
  | absent => exact .inl rfl
  | digits hne hdigits hmax =>
      refine .inr ⟨_, rfl, ?_⟩
      rw [strtoul_digits hne hdigits hmax]
      exact hne.symm

end

/-- `hostport_parse` is right about the strings that are well cut only. -/
theorem hostportParse_wellCut (inet : Inet) (s : CString) (hnone : sockaddrParse inet s = none) :
    ParsesHost inet s ↔ WellCut s.bytes := by
  constructor
  · rintro ⟨haccept, -⟩ name after hcut
    obtain ⟨hscan, port, hport⟩ := hcut.parse
    obtain ⟨host, -, hparse, -⟩ := hostportParse_name hnone hscan hport
    obtain ⟨name', port', htext⟩ := haccept.1 ⟨host, hparse⟩
    obtain ⟨after', hcut', hport', hne⟩ := htext.cuts
    have hsame := hcut'.parse.1
    rw [hscan] at hsame
    cases hsame
    exact ⟨hne, port', hport'⟩
  · intro hwell
    refine ⟨⟨?_, ?_⟩, ?_⟩
    · rintro ⟨host, hparse⟩
      rcases hostportParse_cases hparse with ⟨addr, haddr⟩ | ⟨-, name, after, port, hscan, hport⟩
      · rw [hnone] at haddr
        cases haddr
      · have hcut := Cuts.of_parse hscan hport
        obtain ⟨hne, port', hport'⟩ := hwell name after hcut
        refine ⟨name, port', ?_⟩
        rw [hcut.eq_append]
        exact .mk (hcut.name.resolve_left hne) hport'
    · rintro ⟨name, port, htext⟩
      obtain ⟨after, hcut, -⟩ := htext.cuts
      obtain ⟨hscan, port', hport⟩ := hcut.parse
      obtain ⟨host, -, hparse, -⟩ := hostportParse_name hnone hscan hport
      exact ⟨host, hparse⟩
    · intro host name port hparse htext
      obtain ⟨after, hcut, hport, -⟩ := htext.cuts
      obtain ⟨hread, hfit⟩ := portAfter_portText hport
      obtain ⟨host', hname, hparse', -, hport', hget⟩ :=
        hostportParse_name hnone hcut.parse.1 hread
      rw [hparse] at hparse'
      cases hparse'
      refine ⟨⟨_, hget, rfl⟩, ?_⟩
      rw [hostportGetPort, hport']
      exact hfit

theorem hostportParse_wellCut_localhost :
    ParsesHost Inet.canonical (.lit "localhost:80") := by
  have hnone : sockaddrParse Inet.canonical (.lit "localhost:80") = none := by
    rw [← Option.isNone_iff_eq_none]
    decide +kernel
  refine (hostportParse_wellCut Inet.canonical (.lit "localhost:80") hnone).2 fun name after h => ?_
  have hsplit : findHostnameEnd (lit "localhost:80").bytes =
      some (ascii "localhost", ascii ":80") := by decide +kernel
  have hsame := h.parse.1
  rw [hsplit] at hsame
  cases hsame
  exact ⟨by decide +kernel, _, .digits (by decide) (by decide +kernel) (by decide +kernel)⟩

/-- What follows the digits of a port is not looked at. -/
theorem hostportParse_ignores_rest :
    ∃ s host, sockaddrParse Inet.canonical s = none ∧
      hostportParse Inet.canonical s = some host ∧ hostportGetPort host = 80 ∧
      ¬ParsesHost Inet.canonical s := by
  have hnone : sockaddrParse Inet.canonical (.lit "localhost:80abc") = none := by
    rw [← Option.isNone_iff_eq_none]
    decide +kernel
  have hport : (hostportParse Inet.canonical (.lit "localhost:80abc")).map hostportGetPort =
      some 80 := by decide +kernel
  obtain ⟨host, hparse, hport⟩ := Option.map_eq_some_iff.1 hport
  refine ⟨.lit "localhost:80abc", host, hnone, hparse, hport, fun h => ?_⟩
  obtain ⟨name, port, htext⟩ := h.1.1 ⟨host, hparse⟩
  obtain ⟨after, hcut, hafter, -⟩ := htext.cuts
  have hsplit : findHostnameEnd (lit "localhost:80abc").bytes =
      some (ascii "localhost", ascii ":80abc") := by decide
  have hsame := hcut.parse.1
  rw [hsplit] at hsame
  cases hsame
  cases hafter with
  | digits _ hdigits _ => exact absurd (hdigits 97 (by decide)) (by decide)

end CommonsC.Net
