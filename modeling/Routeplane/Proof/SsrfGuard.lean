import Routeplane.Providers.Store

/-!
# Which literal addresses the guard refuses

The addresses that are refused are blocks of both families. The guard reads the host as an address
and resolves it when it is none. The host of an IPv6 literal stands in brackets, so it is read as a
name, and it does not resolve: it is let through, whatever it denotes.

* `ipv4IsBlocked_iff`, `ipv6IsBlocked_iff`: the blocks that are refused.
* `ssrfCheck_v4`, `ssrfCheck_v6`: the check of a literal.
* `literal_refused_iff`: for which literals the check does what it is for.
-/

namespace Routeplane.Custom

open Net
open Fallible (bind_eq_ok)

/-! ## Blocks -/

/-- Refused always: unspecified, multicast, broadcast, link-local and metadata; and, unless opted
in, loopback and private. -/
def refusedV4 (allowPrivate : Bool) : List Block :=
  [cidr4 ⟨0, 0, 0, 0⟩ 32, cidr4 ⟨224, 0, 0, 0⟩ 4, cidr4 ⟨255, 255, 255, 255⟩ 32,
    cidr4 ⟨169, 254, 0, 0⟩ 16] ++
  if allowPrivate then []
  else [cidr4 ⟨127, 0, 0, 0⟩ 8, cidr4 ⟨10, 0, 0, 0⟩ 8, cidr4 ⟨172, 16, 0, 0⟩ 12,
    cidr4 ⟨192, 168, 0, 0⟩ 16]

/-- Refused always: unspecified, multicast, link-local, and what is mapped from refused IPv4; and,
unless opted in, loopback and unique local. -/
def refusedV6 (allowPrivate : Bool) : List Block :=
  [cidr6 ⟨0, 0, 0, 0, 0, 0, 0, 0⟩ 128, cidr6 ⟨0xff00, 0, 0, 0, 0, 0, 0, 0⟩ 8,
    cidr6 ⟨0xfe80, 0, 0, 0, 0, 0, 0, 0⟩ 10] ++
  (refusedV4 allowPrivate).map Block.mapped ++
  if allowPrivate then []
  else [cidr6 ⟨0, 0, 0, 0, 0, 0, 0, 1⟩ 128, cidr6 ⟨0xfc00, 0, 0, 0, 0, 0, 0, 0⟩ 7]

/-- Some block of the list has the address. -/
def Listed (blocks : List Block) (n : ℕ) : Prop := ∃ block ∈ blocks, block.Contains n

theorem listed_append {blocks blocks' : List Block} {n : ℕ} :
    Listed (blocks ++ blocks') n ↔ Listed blocks n ∨ Listed blocks' n := by
  unfold Listed
  simp only [List.mem_append, or_and_right, exists_or]

theorem listed_cons {block : Block} {blocks : List Block} {n : ℕ} :
    Listed (block :: blocks) n ↔ block.Contains n ∨ Listed blocks n := by
  unfold Listed
  simp only [List.mem_cons, exists_eq_or_imp]

theorem not_listed_nil {n : ℕ} : ¬Listed [] n := by
  rintro ⟨block, hblock, -⟩
  exact absurd hblock List.not_mem_nil

/-- A list that is there unless opted in. -/
theorem listed_ite {allowPrivate : Bool} {blocks : List Block} {n : ℕ} :
    Listed (if allowPrivate then [] else blocks) n ↔ allowPrivate = false ∧ Listed blocks n := by
  cases allowPrivate with
  | true => simp [not_listed_nil]
  | false => simp

section V4

variable (v4 : Ipv4Addr)

theorem isUnspecified_iff : v4.isUnspecified = true ↔ (cidr4 ⟨0, 0, 0, 0⟩ 32).Contains v4.toNat := by
  unfold Ipv4Addr.isUnspecified
  rw [cidr4_contains_iff_eq, beq_iff_eq]

theorem isBroadcast_iff :
    v4.isBroadcast = true ↔ (cidr4 ⟨255, 255, 255, 255⟩ 32).Contains v4.toNat := by
  unfold Ipv4Addr.isBroadcast
  rw [cidr4_contains_iff_eq, beq_iff_eq]

theorem isMulticast_iff : v4.isMulticast = true ↔ (cidr4 ⟨224, 0, 0, 0⟩ 4).Contains v4.toNat := by
  have hlow : (224 : UInt8).toNat = 224 := rfl
  have hhigh : (239 : UInt8).toNat = 239 := rfl
  rw [show 4 = 8 - 4 from rfl, cidr4_contains_iff_first v4 _ (by omega)]
  unfold Ipv4Addr.isMulticast
  rw [Bool.and_eq_true, decide_eq_true_eq, decide_eq_true_eq, UInt8.le_iff_toNat_le,
    UInt8.le_iff_toNat_le, hlow, hhigh]
  omega

/-- A prefix of one octet. -/
theorem contains_octet (base : Ipv4Addr) : (cidr4 base 8).Contains v4.toNat ↔ v4.a = base.a := by
  have hfirst := cidr4_contains_iff_first v4 base (Nat.zero_le 8)
  rw [Nat.pow_zero, Nat.div_one, Nat.div_one, UInt8.toNat_inj] at hfirst
  exact hfirst

/-- A prefix of two octets. -/
theorem contains_octets (base : Ipv4Addr) :
    (cidr4 base 16).Contains v4.toNat ↔ v4.a = base.a ∧ v4.b = base.b := by
  have hsecond := cidr4_contains_iff_second v4 base (Nat.zero_le 8)
  rw [Nat.pow_zero, Nat.div_one, Nat.div_one, UInt8.toNat_inj] at hsecond
  exact hsecond

theorem isPrivate_iff : v4.isPrivate = true ↔ (cidr4 ⟨10, 0, 0, 0⟩ 8).Contains v4.toNat ∨
    (cidr4 ⟨172, 16, 0, 0⟩ 12).Contains v4.toNat ∨ (cidr4 ⟨192, 168, 0, 0⟩ 16).Contains v4.toNat := by
  have hlow : (16 : UInt8).toNat = 16 := rfl
  have hhigh : (31 : UInt8).toNat = 31 := rfl
  have hmiddle := cidr4_contains_iff_second v4 ⟨172, 16, 0, 0⟩ (show 4 ≤ 8 by omega)
  have hrange : 16 ≤ v4.b ∧ v4.b ≤ 31 ↔ v4.b.toNat / 2 ^ 4 = (16 : UInt8).toNat / 2 ^ 4 := by
    rw [UInt8.le_iff_toNat_le, UInt8.le_iff_toNat_le, hlow, hhigh]
    omega
  rw [contains_octet, contains_octets, show 12 = 16 - 4 from rfl, hmiddle, ← hrange]
  unfold Ipv4Addr.isPrivate
  simp only [Bool.or_eq_true, Bool.and_eq_true, beq_iff_eq, decide_eq_true_eq, and_assoc, or_assoc]

/-- **The IPv4 addresses that are refused.** -/
theorem ipv4IsBlocked_iff (allowPrivate : Bool) :
    ipv4IsBlocked v4 allowPrivate ≠ none ↔ Listed (refusedV4 allowPrivate) v4.toNat := by
  have hlinkLocal : v4.isLinkLocal = true ↔ (cidr4 ⟨169, 254, 0, 0⟩ 16).Contains v4.toNat := by
    rw [contains_octets]
    unfold Ipv4Addr.isLinkLocal
    simp only [Bool.and_eq_true, beq_iff_eq]
  have hloopback : v4.isLoopback = true ↔ (cidr4 ⟨127, 0, 0, 0⟩ 8).Contains v4.toNat := by
    rw [contains_octet]
    unfold Ipv4Addr.isLoopback
    simp only [beq_iff_eq]
  unfold refusedV4
  rw [listed_append, listed_ite]
  simp only [listed_cons, not_listed_nil, or_false, ← isUnspecified_iff, ← isMulticast_iff,
    ← isBroadcast_iff, ← hlinkLocal, ← hloopback, ← isPrivate_iff]
  unfold ipv4IsBlocked
  cases v4.isUnspecified <;> cases v4.isMulticast <;> cases v4.isBroadcast <;>
    cases v4.isLinkLocal <;> cases allowPrivate <;> cases v4.isLoopback <;> cases v4.isPrivate <;>
    simp

end V4

section V6

variable (v6 : Ipv6Addr)

/-- A prefix within the first segment, by its mask. -/
theorem contains_segment_iff (base : Ipv6Addr) (mask : UInt16) {host : ℕ} (hhost : host ≤ 16)
    (hmask : mask.toNat = 2 ^ 16 - 2 ^ host)
    (hbase : base.a.toNat = base.a.toNat / 2 ^ host * 2 ^ host) :
    (cidr6 base (16 - host)).Contains v6.toNat ↔ (v6.a &&& mask == base.a) = true := by
  rw [cidr6_contains_iff_first v6 base hhost, beq_iff_eq, ← UInt16.toNat_inj, UInt16.toNat_and, hmask,
    hbase, land_mask_eq_iff hhost v6.a.toNat_lt, Nat.mul_div_cancel _ (Nat.two_pow_pos host)]

theorem mapped_contains_iff (block : Block) (hhost : block.host ≤ 32) (hbase : block.base < 2 ^ 32) :
    block.mapped.Contains v6.toNat ↔ v6.front = 0xffff ∧ block.Contains v6.back :=
  Block.contains_iff_of_split hhost v6.back_lt hbase

/-- The mapped blocks hold the addresses mapped from the blocks. -/
theorem listed_mapped {blocks : List Block}
    (hblocks : ∀ block ∈ blocks, block.host ≤ 32 ∧ block.base < 2 ^ 32) :
    Listed (blocks.map Block.mapped) v6.toNat ↔ ∃ v4, v6.toIpv4Mapped = some v4 ∧
      Listed blocks v4.toNat := by
  have hlisted : Listed (blocks.map Block.mapped) v6.toNat ↔
      v6.front = 0xffff ∧ Listed blocks v6.back := by
    unfold Listed
    simp only [List.mem_map, exists_exists_and_eq_and]
    constructor
    · rintro ⟨block, hblock, hcontains⟩
      obtain ⟨hhost, hbase⟩ := hblocks block hblock
      obtain ⟨hfront, hback⟩ := (mapped_contains_iff v6 block hhost hbase).1 hcontains
      exact ⟨hfront, block, hblock, hback⟩
    · rintro ⟨hfront, block, hblock, hback⟩
      obtain ⟨hhost, hbase⟩ := hblocks block hblock
      exact ⟨block, hblock, (mapped_contains_iff v6 block hhost hbase).2 ⟨hfront, hback⟩⟩
  rw [hlisted]
  cases hmapped : v6.toIpv4Mapped with
  | none =>
    have hfront := Ipv6Addr.toIpv4Mapped_eq_none hmapped
    simp [hfront]
  | some v4 =>
    obtain ⟨hfront, hback⟩ := Ipv6Addr.toIpv4Mapped_eq_some hmapped
    simp [hfront, hback]

theorem refusedV4_bounds (allowPrivate : Bool) :
    ∀ block ∈ refusedV4 allowPrivate, block.host ≤ 32 ∧ block.base < 2 ^ 32 := by
  cases allowPrivate <;> decide

/-- A mapped address is neither the loopback address nor unique local. -/
theorem not_local_of_mapped {v4 : Ipv4Addr} (h : v6.toIpv4Mapped = some v4) :
    v6.isLoopback = false ∧ ipv6IsUniqueLocal v6 = false := by
  unfold Ipv6Addr.toIpv4Mapped at h
  split at h
  · rename_i hfront
    obtain ⟨ha, -, -, -, -, hf⟩ := hfront
    refine ⟨?_, ?_⟩
    · unfold Ipv6Addr.isLoopback
      rw [beq_eq_false_iff_ne]
      intro heq
      rw [heq] at hf
      exact absurd hf (by decide)
    · unfold ipv6IsUniqueLocal
      rw [ha]
      rfl
  · cases h

/-- **The IPv6 addresses that are refused.** -/
theorem ipv6IsBlocked_iff (allowPrivate : Bool) :
    ipv6IsBlocked v6 allowPrivate ≠ none ↔ Listed (refusedV6 allowPrivate) v6.toNat := by
  have hunspecified : v6.isUnspecified = true ↔
      (cidr6 ⟨0, 0, 0, 0, 0, 0, 0, 0⟩ 128).Contains v6.toNat := by
    unfold Ipv6Addr.isUnspecified
    rw [cidr6_contains_iff_eq, beq_iff_eq]
  have hloopback : v6.isLoopback = true ↔
      (cidr6 ⟨0, 0, 0, 0, 0, 0, 0, 1⟩ 128).Contains v6.toNat := by
    unfold Ipv6Addr.isLoopback
    rw [cidr6_contains_iff_eq, beq_iff_eq]
  have hmulticast : v6.isMulticast = true ↔
      (cidr6 ⟨0xff00, 0, 0, 0, 0, 0, 0, 0⟩ 8).Contains v6.toNat :=
    (contains_segment_iff v6 ⟨0xff00, 0, 0, 0, 0, 0, 0, 0⟩ 0xff00 (show 8 ≤ 16 by omega) rfl rfl).symm
  have hlinkLocal : ipv6IsLinkLocal v6 = true ↔
      (cidr6 ⟨0xfe80, 0, 0, 0, 0, 0, 0, 0⟩ 10).Contains v6.toNat :=
    (contains_segment_iff v6 ⟨0xfe80, 0, 0, 0, 0, 0, 0, 0⟩ 0xffc0 (show 6 ≤ 16 by omega) rfl rfl).symm
  have huniqueLocal : ipv6IsUniqueLocal v6 = true ↔
      (cidr6 ⟨0xfc00, 0, 0, 0, 0, 0, 0, 0⟩ 7).Contains v6.toNat :=
    (contains_segment_iff v6 ⟨0xfc00, 0, 0, 0, 0, 0, 0, 0⟩ 0xfe00 (show 9 ≤ 16 by omega) rfl rfl).symm
  unfold refusedV6
  rw [listed_append, listed_append, listed_ite, listed_mapped v6 (refusedV4_bounds allowPrivate)]
  simp only [listed_cons, not_listed_nil, or_false, ← hunspecified, ← hloopback, ← hmulticast,
    ← hlinkLocal, ← huniqueLocal]
  unfold ipv6IsBlocked
  cases hmapped : v6.toIpv4Mapped with
  | some v4 =>
    obtain ⟨hloop, hunique⟩ := not_local_of_mapped v6 hmapped
    have hblocked := ipv4IsBlocked_iff v4 allowPrivate
    simp only [hloop, hunique, Option.some.injEq, exists_eq_left', ← hblocked]
    cases v6.isUnspecified <;> cases v6.isMulticast <;> cases ipv6IsLinkLocal v6 <;> simp
  | none =>
    cases v6.isUnspecified <;> cases v6.isMulticast <;> cases ipv6IsLinkLocal v6 <;>
      cases allowPrivate <;> cases v6.isLoopback <;> cases ipv6IsUniqueLocal v6 <;> simp

end V6

/-! ## Literals -/

/-- What the `url` crate documents of the hosts it gives back: an IPv4 literal in dotted form, an
IPv6 literal in brackets. -/
structure HostsNormalized (parseUrl : String → Option ParsedUrl) : Prop where
  dotted : ∀ s url v4, parseUrl s = some url → url.literal = some (.v4 v4) →
    url.host = some v4.display
  bracketed : ∀ s url v6, parseUrl s = some url → url.literal = some (.v6 v6) →
    ∃ text, url.host = some ("[" ++ text ++ "]")

/-- A name in brackets does not resolve. -/
def BracketsUnresolved (toSocketAddrs : String → UInt16 → Option (List IpAddr)) : Prop :=
  ∀ text port, toSocketAddrs ("[" ++ text ++ "]") port = none

section Check

variable {parseUrl : String → Option ParsedUrl}
  {toSocketAddrs : String → UInt16 → Option (List IpAddr)} {baseUrl : String} {url : ParsedUrl}

theorem ssrfCheck_eq {host : String} (hurl : parseUrl baseUrl = some url) (hhost : url.host = some host)
    (allowPrivate : Bool) :
    ssrfCheck parseUrl toSocketAddrs baseUrl allowPrivate =
      match parseIpAddr host with
      | some ip =>
        (ipIsBlocked ip allowPrivate).elim (.ok ()) fun reason => .error (refusedHost reason)
      | none =>
        match toSocketAddrs host (url.portOrKnownDefault.getD 443) with
        | some addrs =>
          (addrs.findSome? (ipIsBlocked · allowPrivate)).elim (.ok ()) fun reason =>
            .error (refusedHost reason)
        | none => .ok () := by
  unfold ssrfCheck
  rw [hurl]
  show ((url.host.elim (.error _) .ok : Except Refusal String) >>= _) = _
  rw [hhost]
  rfl

/-- **An IPv4 literal is checked.** -/
theorem ssrfCheck_v4 (hhosts : HostsNormalized parseUrl) {v4 : Ipv4Addr}
    (hurl : parseUrl baseUrl = some url) (hliteral : url.literal = some (.v4 v4))
    (allowPrivate : Bool) :
    ssrfCheck parseUrl toSocketAddrs baseUrl allowPrivate =
      (ipv4IsBlocked v4 allowPrivate).elim (.ok ()) fun reason => .error (refusedHost reason) := by
  rw [ssrfCheck_eq hurl (hhosts.dotted baseUrl url v4 hurl hliteral), parseIpAddr_display]
  rfl

/-- **An IPv6 literal is let through.** -/
theorem ssrfCheck_v6 (hhosts : HostsNormalized parseUrl) (hbrackets : BracketsUnresolved toSocketAddrs)
    {v6 : Ipv6Addr} (hurl : parseUrl baseUrl = some url) (hliteral : url.literal = some (.v6 v6))
    (allowPrivate : Bool) : ssrfCheck parseUrl toSocketAddrs baseUrl allowPrivate = .ok () := by
  obtain ⟨text, hhost⟩ := hhosts.bracketed baseUrl url v6 hurl hliteral
  have hhead : ("[" ++ text ++ "]").toList = '[' :: (text.toList ++ [']']) := by
    rw [String.toList_append, String.toList_append]
    rfl
  rw [ssrfCheck_eq hurl hhost, parseIpAddr_of_head hhead, hbrackets]

/-- The URL the guard looks at is the one the validation accepted. -/
theorem exists_parsedUrl {raw cfg : CustomProviderConfig}
    (h : validateAndNormalize (parsedUrls parseUrl) raw = .ok cfg) :
    ∃ url, parseUrl cfg.baseUrl = some url := by
  obtain ⟨name, baseUrl, models, -, hbaseUrl, -, -, rfl⟩ := validateAndNormalize_parts h
  have heq := (validateBaseUrl_ok hbaseUrl).1
  unfold validateBaseUrl at hbaseUrl
  obtain ⟨parsed, hparsed, -⟩ := bind_eq_ok hbaseUrl
  rw [← heq] at hparsed
  unfold parsedUrls at hparsed
  show ∃ url, parseUrl baseUrl = some url
  cases hurl : parseUrl baseUrl with
  | none =>
    rw [hurl] at hparsed
    cases hparsed
  | some url => exact ⟨url, rfl⟩

/-- **Which literals are refused as they should be**: all but the IPv6 literals of a refused block. -/
theorem literal_refused_iff (hhosts : HostsNormalized parseUrl)
    (hbrackets : BracketsUnresolved toSocketAddrs) {raw cfg : CustomProviderConfig}
    (hvalid : validateAndNormalize (parsedUrls parseUrl) raw = .ok cfg) :
    ∃ url, parseUrl cfg.baseUrl = some url ∧ ∀ ip allowPrivate, url.literal = some ip →
      ((ssrfCheck parseUrl toSocketAddrs cfg.baseUrl allowPrivate = .ok () →
          ipIsBlocked ip allowPrivate = none) ↔
        ∀ v6, ip = .v6 v6 → ∀ block ∈ refusedV6 allowPrivate, ¬block.Contains v6.toNat) := by
  obtain ⟨url, hurl⟩ := exists_parsedUrl hvalid
  refine ⟨url, hurl, ?_⟩
  intro ip allowPrivate hliteral
  cases ip with
  | v4 v4 =>
    rw [ssrfCheck_v4 hhosts hurl hliteral]
    refine iff_of_true ?_ (fun v6 heq => nomatch heq)
    intro hok
    show ipv4IsBlocked v4 allowPrivate = none
    cases hblocked : ipv4IsBlocked v4 allowPrivate with
    | none => rfl
    | some reason =>
      rw [hblocked] at hok
      cases hok
  | v6 v6 =>
    have hthrough := ssrfCheck_v6 hhosts hbrackets hurl hliteral allowPrivate
    have hblocked := (ipv6IsBlocked_iff v6 allowPrivate).not
    unfold Listed at hblocked
    push Not at hblocked
    constructor
    · rintro hclaim w heq
      rw [← IpAddr.v6.inj heq]
      exact hblocked.1 (hclaim hthrough)
    · intro hnone _
      exact hblocked.2 (hnone v6 rfl)

end Check

/-! ### Literals that are let through and refused -/

/-- `url::Url::parse` on the base URLs below. -/
def literalUrls (url : String) : Option ParsedUrl :=
  if url = "http://[::ffff:169.254.169.254]" then
    some { scheme := "http", host := some "[::ffff:a9fe:a9fe]",
           literal := some (.v6 ⟨0, 0, 0, 0, 0, 0xffff, 0xa9fe, 0xa9fe⟩),
           portOrKnownDefault := some 80 }
  else if url = "http://0x0a.5:8000" then
    some { scheme := "http", host := some "10.0.0.5", literal := some (.v4 ⟨10, 0, 0, 5⟩),
           portOrKnownDefault := some 8000 }
  else none

/-- `to_socket_addrs` where one name resolves. -/
def hostsFile (host : String) (_port : UInt16) : Option (List IpAddr) :=
  if host = "localhost" then some [.v4 ⟨127, 0, 0, 1⟩] else none

def atUrl (baseUrl : String) : CustomProviderConfig :=
  { name := "vllm", baseUrl, apiKey := "sk-OWN", models := ["m1"] }

theorem literalUrls_normalized : HostsNormalized literalUrls where
  dotted := by
    intro s url v4 hurl hliteral
    unfold literalUrls at hurl
    split at hurl
    · rw [← Option.some_inj.1 hurl] at hliteral
      cases hliteral
    split at hurl
    · rw [← Option.some_inj.1 hurl] at hliteral ⊢
      rw [← IpAddr.v4.inj (Option.some_inj.1 hliteral)]
      decide
    · cases hurl
  bracketed := by
    intro s url v6 hurl hliteral
    unfold literalUrls at hurl
    split at hurl
    · rw [← Option.some_inj.1 hurl]
      exact ⟨"::ffff:a9fe:a9fe", by decide⟩
    split at hurl
    · rw [← Option.some_inj.1 hurl] at hliteral
      cases hliteral
    · cases hurl

theorem hostsFile_unresolved : BracketsUnresolved hostsFile := by
  intro text port
  refine if_neg ?_
  intro heq
  have hchars := congrArg String.toList heq
  rw [String.toList_append, String.toList_append] at hchars
  exact absurd (List.cons.inj hchars).1 (by decide)

/-- An IPv4 literal in hex is refused, as it should be. -/
theorem literal_refused_hex : ∃ url, literalUrls "http://0x0a.5:8000" = some url ∧
    ∀ ip allowPrivate, url.literal = some ip →
      ((ssrfCheck literalUrls hostsFile "http://0x0a.5:8000" allowPrivate = .ok () →
          ipIsBlocked ip allowPrivate = none) ↔
        ∀ v6, ip = .v6 v6 → ∀ block ∈ refusedV6 allowPrivate, ¬block.Contains v6.toNat) :=
  literal_refused_iff literalUrls_normalized hostsFile_unresolved
    (show validateAndNormalize (parsedUrls literalUrls) (atUrl "http://0x0a.5:8000/") =
      .ok (atUrl "http://0x0a.5:8000") by decide)

/-- The metadata address as an IPv4-mapped literal passes both checks, opted in or not. -/
theorem mapped_metadata_accepted :
    HostsNormalized literalUrls ∧ BracketsUnresolved hostsFile ∧
      validateAndNormalize (parsedUrls literalUrls) (atUrl "http://[::ffff:169.254.169.254]") =
        .ok (atUrl "http://[::ffff:169.254.169.254]") ∧
      (∀ allowPrivate, ssrfCheck literalUrls hostsFile "http://[::ffff:169.254.169.254]"
        allowPrivate = .ok ()) ∧
      (literalUrls "http://[::ffff:169.254.169.254]").bind (·.literal) =
        some (.v6 ⟨0, 0, 0, 0, 0, 0xffff, 0xa9fe, 0xa9fe⟩) ∧
      ∀ allowPrivate, ipIsBlocked (.v6 ⟨0, 0, 0, 0, 0, 0xffff, 0xa9fe, 0xa9fe⟩) allowPrivate =
        some "link-local/metadata address" :=
  ⟨literalUrls_normalized, hostsFile_unresolved, by decide, by decide, by decide, by decide⟩

end Routeplane.Custom
