import EkaCI.Jobs.CachePermissions
import EkaCI.Jobs.HostAddresses

/-! Where a cache may be. The configuration names a cache by a Cachix name or by a URL, and
nothing that is pushed may reach a private host. -/

namespace EkaCI

/-- What a URL names. The parser has read the numbers and brackets that its scheme lets it
read; everything else is a domain. -/
inductive Host where
  | domain (name : String)
  | ipv4 (addr : Ipv4Addr)
  | ipv6 (addr : Ipv6Addr)
  deriving DecidableEq

structure Url where
  scheme : String
  host : Option Host

inductive DestinationError where
  | empty
  | noScheme (destination : String)
  | disallowedCharacters (destination : String)
  | invalidUrl (destination : String)
  | disallowedScheme (destination scheme : String)
  | noHost (destination : String)
  | emptyHost (destination : String)
  | privateHost (destination : String)
  deriving DecidableEq

def ipv4IsPrivate (ip : Ipv4Addr) : Bool :=
  ip.isLoopback || ip.isPrivate || ip.isLinkLocal || ip.isUnspecified || ip.isBroadcast ||
    (ip.octet 3 == 100 && ip.octet 2 &&& 0xc0 == 0x40)

def ipv6IsPrivate (ip : Ipv6Addr) : Bool :=
  if ip.isLoopback ∨ ip.isUnspecified then true
  else if ip.segment 7 &&& 0xffc0 = 0xfe80 then true
  else if ip.segment 7 &&& 0xfe00 = 0xfc00 then true
  else if ip.segment 7 = 0 ∧ ip.segment 6 = 0 ∧ ip.segment 5 = 0 ∧ ip.segment 4 = 0 ∧ ip.segment 3 = 0 ∧
      ip.segment 2 = 0xffff then
    ipv4IsPrivate (.new (ip.octet 3) (ip.octet 2) (ip.octet 1) (ip.octet 0))
  else false

def lowerAscii (name : String) : List Char := name.toList.map Char.toLower

/-- The names that stand for the host itself or for the metadata service of a cloud. -/
def localNames : List String :=
  ["localhost", "localhost.localdomain", "ip6-localhost", "ip6-loopback", "metadata.google.internal", "metadata.goog"]

def hostIsPrivate : Host → Bool
  | .ipv4 ip => ipv4IsPrivate ip
  | .ipv6 ip => ipv6IsPrivate ip
  | .domain name =>
    let lower := lowerAscii name
    if localNames.any (·.toList = lower) then true
    else if ".localhost".toList <:+ lower ∨ ".local".toList <:+ lower then true
    else
      match Ipv4Addr.parse lower with
      | some v4 => ipv4IsPrivate v4
      | none =>
        match Ipv6Addr.parse lower with
        | some v6 => ipv6IsPrivate v6
        | none => false

theorem any_localNames {name : List Char} :
    localNames.any (·.toList = name) = true ↔ name ∈ localNames.map String.toList := by
  simp only [List.any_eq_true, decide_eq_true_eq, List.mem_map]

def allowedSchemes : List String := ["s3", "https", "http", "ssh", "ssh-ng"]

def nameCharacter (character : Char) : Bool :=
  character.isAlphanum || character = '.' || character = '_' || character = '-'

/-- A destination is a URL if this stands in it. -/
def hasScheme (destination : String) : Prop := "://".toList <:+: destination.toList

instance (destination : String) : Decidable (hasScheme destination) :=
  inferInstanceAs (Decidable (_ <:+: _))

variable (parse : String → Option Url)

def validateCacheDestination (destination : String) (cacheType : CacheType) (allowPrivateHosts : Bool) :
    Except DestinationError Unit :=
  if destination = "" then .error .empty
  else if ¬ hasScheme destination then
    if cacheType ≠ .cachix then .error (.noScheme destination)
    else if destination.toList.all nameCharacter then .ok ()
    else .error (.disallowedCharacters destination)
  else
    match parse destination with
    | none => .error (.invalidUrl destination)
    | some url =>
      if url.scheme ∉ allowedSchemes then .error (.disallowedScheme destination url.scheme)
      else
        match url.host with
        | none => .error (.noHost destination)
        | some host =>
          if host = .domain "" then .error (.emptyHost destination)
          else if ¬ allowPrivateHosts ∧ hostIsPrivate host then .error (.privateHost destination)
          else .ok ()

theorem octet_mask_iff (octet : UInt8) : octet &&& 0xc0 = 0x40 ↔ octet.toNat / 64 = 1 := by
  rw [← UInt8.toNat_inj, UInt8.toNat_and]
  have masked := and_shifted_mask octet.toNat 2 6
  have := octet.toNat_lt
  simp only [Nat.reducePow, Nat.reduceSub, Nat.shiftLeft_eq] at masked
  rw [show UInt8.toNat 0xc0 = 192 from rfl, show UInt8.toNat 0x40 = 64 from rfl, masked]
  omega

theorem ipv4IsPrivate_iff (ip : Ipv4Addr) : ipv4IsPrivate ip = true ↔ ip.Barred := by
  have second := (ip.octet 2).toNat_lt
  have between : (16 ≤ ip.octet 2 ∧ ip.octet 2 ≤ 31) ↔ (ip.octet 2).toNat / 16 = 1 := by
    rw [UInt8.le_iff_toNat_le, UInt8.le_iff_toNat_le, show UInt8.toNat 16 = 16 from rfl,
      show UInt8.toNat 31 = 31 from rfl]
    omega
  simp only [ipv4IsPrivate, Ipv4Addr.isLoopback, Ipv4Addr.isPrivate, Ipv4Addr.isLinkLocal, Ipv4Addr.isUnspecified,
    Ipv4Addr.isBroadcast, Bool.or_eq_true, Bool.and_eq_true, beq_iff_eq, decide_eq_true_eq, octet_mask_iff,
    between, Ipv4Addr.Barred, Ipv4Addr.private_iff, or_assoc]
  simp only [or_comm, or_left_comm]

theorem group_mask_ten_iff (group : UInt16) : group &&& 0xffc0 = 0xfe80 ↔ group.toNat / 64 = 0x3fa := by
  rw [← UInt16.toNat_inj, UInt16.toNat_and]
  have masked := and_shifted_mask group.toNat 10 6
  have := group.toNat_lt
  simp only [Nat.reducePow, Nat.reduceSub, Nat.shiftLeft_eq] at masked
  rw [show UInt16.toNat 0xffc0 = 1023 * 64 from rfl, show UInt16.toNat 0xfe80 = 65152 from rfl, masked]
  omega

theorem group_mask_seven_iff (group : UInt16) : group &&& 0xfe00 = 0xfc00 ↔ group.toNat / 512 = 0x7e := by
  rw [← UInt16.toNat_inj, UInt16.toNat_and]
  have masked := and_shifted_mask group.toNat 7 9
  have := group.toNat_lt
  simp only [Nat.reducePow, Nat.reduceSub, Nat.shiftLeft_eq] at masked
  rw [show UInt16.toNat 0xfe00 = 127 * 512 from rfl, show UInt16.toNat 0xfc00 = 64512 from rfl, masked]
  omega

variable (ip : Ipv6Addr)

theorem mapped_iff :
    (ip.segment 7 = 0 ∧ ip.segment 6 = 0 ∧ ip.segment 5 = 0 ∧ ip.segment 4 = 0 ∧ ip.segment 3 = 0 ∧
      ip.segment 2 = 0xffff) ↔ ip.Within Embedding.mapped.layout.1 Embedding.mapped.layout.2.1 := by
  have bound : ip.bits.toNat < 2 ^ 128 := ip.bits.isLt
  have block : Embedding.mapped.layout.1.bits.toNat = 0xffff00000000 := rfl
  simp only [← UInt16.toNat_inj, Ipv6Addr.toNat_segment, Ipv6Addr.Within, block]
  simp only [Embedding.layout, UInt16.toNat_zero, show UInt16.toNat 0xffff = 65535 from rfl]
  omega

theorem new_octets_eq :
    Ipv4Addr.new (ip.octet 3) (ip.octet 2) (ip.octet 1) (ip.octet 0) = Embedding.mapped.unwrap ip := by
  refine congrArg Ipv4Addr.mk (BitVec.eq_of_toNat_eq ?_)
  simp only [Embedding.layout, Ipv6Addr.toNat_octet, BitVec.toNat_ofNat, reduceCtorEq, if_false]
  omega

theorem ipv6Private_iff :
    ip.Private ↔ ip.isLoopback ∨ ip.isUnspecified ∨ ip.segment 7 &&& 0xffc0 = 0xfe80 ∨ ip.segment 7 &&& 0xfe00 = 0xfc00 := by
  have bound : ip.bits.toNat < 2 ^ 128 := ip.bits.isLt
  have loopback : (Ipv6Addr.ofSegments [0, 0, 0, 0, 0, 0, 0, 1]).bits.toNat = 1 := rfl
  have unspecified : (Ipv6Addr.ofSegments [0, 0, 0, 0, 0, 0, 0, 0]).bits.toNat = 0 := rfl
  have linkLocal : (Ipv6Addr.ofSegments [0xfe80, 0, 0, 0, 0, 0, 0, 0]).bits.toNat = 0xfe80 * 2 ^ 112 := rfl
  have uniqueLocal : (Ipv6Addr.ofSegments [0xfc00, 0, 0, 0, 0, 0, 0, 0]).bits.toNat = 0xfc00 * 2 ^ 112 := rfl
  simp only [Ipv6Addr.Private, Ipv6Addr.privateBlocks, List.mem_cons, List.not_mem_nil, or_false, exists_eq_or_imp,
    exists_eq_left, Ipv6Addr.Within, Ipv6Addr.isLoopback, Ipv6Addr.isUnspecified, group_mask_ten_iff,
    group_mask_seven_iff, Ipv6Addr.toNat_segment, decide_eq_true_eq, ← BitVec.toNat_inj, loopback, unspecified,
    linkLocal, uniqueLocal, show BitVec.toNat (1 : BitVec 128) = 1 from rfl, show BitVec.toNat (0 : BitVec 128) = 0 from rfl]
  omega

theorem ipv6IsPrivate_iff :
    ipv6IsPrivate ip = true ↔ ip.Private ∨ ∃ addr, Embedding.mapped.Carries ip addr ∧ addr.Barred := by
  have opened : (∃ addr, Embedding.mapped.Carries ip addr ∧ addr.Barred) ↔
      ip.Within Embedding.mapped.layout.1 Embedding.mapped.layout.2.1 ∧ (Embedding.mapped.unwrap ip).Barred := by
    simp only [Embedding.Carries, and_assoc, exists_and_left, exists_eq_left]
  rw [ipv6IsPrivate, opened, ipv6Private_iff, ← mapped_iff, new_octets_eq, ← ipv4IsPrivate_iff]
  split_ifs with alone linkLocal uniqueLocal mapped
  · simp only [true_iff]
    exact .inl (alone.imp_right .inl)
  · simp [linkLocal]
  · simp [uniqueLocal]
  · simp only [not_or, Bool.not_eq_true] at alone
    simp [mapped, alone]
  · simp only [not_or, Bool.not_eq_true] at alone
    simp [mapped, alone, linkLocal, uniqueLocal]

def LocalName (name : List Char) : Prop :=
  name ∈ localNames.map String.toList ∨ ".localhost".toList <:+ name ∨ ".local".toList <:+ name

namespace Host

/-- As DNS compares names: in lower case, and also without the dot that may close the name. -/
inductive Reads : Host → List Char → Prop
  | whole (name : String) : Reads (.domain name) (lowerAscii name)
  | dotless {name : String} {front : List Char} (dot : lowerAscii name = front ++ ['.']) : Reads (.domain name) front

inductive Denotes6 : Host → Ipv6Addr → Prop
  | literal (addr : Ipv6Addr) : Denotes6 (.ipv6 addr) addr
  | text {host : Host} {name : List Char} {addr : Ipv6Addr} (reads : host.Reads name)
      (parsed : Ipv6Addr.parse name = some addr) : Denotes6 host addr

inductive Denotes4 : Host → Ipv4Addr → Prop
  | literal (addr : Ipv4Addr) : Denotes4 (.ipv4 addr) addr
  | dotted {host : Host} {name : List Char} {addr : Ipv4Addr} (reads : host.Reads name)
      (parsed : Ipv4Addr.parse name = some addr) : Denotes4 host addr
  | numbers {host : Host} {name : List Char} {addr : Ipv4Addr} (reads : host.Reads name)
      (parsed : Ipv4Addr.parseNumbers name = some addr) : Denotes4 host addr
  | embedded {host : Host} {wrapper : Ipv6Addr} {addr : Ipv4Addr} (embedding : Embedding)
      (denotes : host.Denotes6 wrapper) (carries : embedding.Carries wrapper addr) : Denotes4 host addr

/-- Neither a local name, nor any spelling of an address that may not be reached. -/
structure Clear (barred : Ipv4Addr → Prop) (host : Host) : Prop where
  name : ∀ name, host.Reads name → ¬ LocalName name
  ipv4 : ∀ addr, host.Denotes4 addr → ¬ barred addr
  ipv6 : ∀ addr, host.Denotes6 addr → ¬ addr.Private

/-- A spelling that the checks do not compare. -/
inductive Overlooked : Host → Prop
  | finalDot {name : String} {front : List Char} (dot : lowerAscii name = front ++ ['.'])
      (hidden : ¬ (Host.domain name).Clear Ipv4Addr.Barred) : Overlooked (.domain name)
  | numbers {host : Host} {name : List Char} {addr : Ipv4Addr} (reads : host.Reads name)
      (parsed : Ipv4Addr.parseNumbers name = some addr) (undotted : Ipv4Addr.parse name ≠ some addr)
      (barred : addr.Barred) : Overlooked host
  | embedded {host : Host} {wrapper : Ipv6Addr} {addr : Ipv4Addr} {embedding : Embedding}
      (unmapped : embedding ≠ .mapped) (denotes : host.Denotes6 wrapper) (carries : embedding.Carries wrapper addr)
      (barred : addr.Barred) : Overlooked host

variable {host : Host} {addr : Ipv4Addr} {name : String}

theorem Clear.not_overlooked (clear : host.Clear Ipv4Addr.Barred) : ¬ host.Overlooked := by
  intro overlooked
  cases overlooked with
  | finalDot dot hidden => exact hidden clear
  | numbers reads parsed undotted barred => exact clear.ipv4 _ (.numbers reads parsed) barred
  | embedded unmapped denotes carries barred => exact clear.ipv4 _ (.embedded _ denotes carries) barred

theorem Clear.not_ipv6IsPrivate (clear : host.Clear Ipv4Addr.Barred) {addr : Ipv6Addr} (denotes : host.Denotes6 addr) :
    ipv6IsPrivate addr = false := by
  apply Bool.eq_false_iff.mpr
  rw [ne_eq, ipv6IsPrivate_iff]
  intro found
  cases found with
  | inl blocked => exact clear.ipv6 addr denotes blocked
  | inr mapped =>
    obtain ⟨inner, carries, barred⟩ := mapped
    exact clear.ipv4 inner (.embedded .mapped denotes carries) barred

theorem Clear.not_ipv4IsPrivate (clear : host.Clear Ipv4Addr.Barred) (denotes : host.Denotes4 addr) :
    ipv4IsPrivate addr = false := by
  apply Bool.eq_false_iff.mpr
  rw [ne_eq, ipv4IsPrivate_iff]
  exact clear.ipv4 addr denotes

theorem Clear.not_private (clear : host.Clear Ipv4Addr.Barred) : hostIsPrivate host = false := by
  cases host with
  | ipv4 ip => exact clear.not_ipv4IsPrivate (.literal ip)
  | ipv6 ip => exact clear.not_ipv6IsPrivate (.literal ip)
  | domain name =>
    have reads := Reads.whole name
    have unlisted := clear.name _ reads
    rw [LocalName, not_or] at unlisted
    rw [hostIsPrivate, if_neg (mt any_localNames.mp unlisted.1), if_neg unlisted.2]
    split
    next v4 parsed => exact clear.not_ipv4IsPrivate (.dotted reads parsed)
    next =>
      split
      next v6 parsed => exact clear.not_ipv6IsPrivate (.text reads parsed)
      next => rfl

/-- An IPv6 address that passes the check carries no barred address, or the embedding is
one that the check leaves closed. -/
theorem not_barred_of_carries (seen : ¬ host.Overlooked) {wrapper : Ipv6Addr} {embedding : Embedding}
    (passes : ipv6IsPrivate wrapper = false) (denotes : host.Denotes6 wrapper)
    (carries : embedding.Carries wrapper addr) : ¬ addr.Barred := by
  intro barred
  by_cases mapped : embedding = .mapped
  · subst mapped
    have found := (ipv6IsPrivate_iff wrapper).mpr (.inr ⟨addr, carries, barred⟩)
    rw [passes] at found
    cases found
  · exact seen (.embedded mapped denotes carries barred)

theorem not_private_of_passes {addr : Ipv6Addr} (passes : ipv6IsPrivate addr = false) : ¬ addr.Private := by
  intro blocked
  have found := (ipv6IsPrivate_iff addr).mpr (.inl blocked)
  rw [passes] at found
  cases found

theorem not_barred_of_passes (passes : ipv4IsPrivate addr = false) : ¬ addr.Barred := by
  intro barred
  rw [(ipv4IsPrivate_iff addr).mpr barred] at passes
  cases passes

/-- What the check of a domain lets pass, at the text that it looks at. -/
structure Passes (lower : List Char) : Prop where
  unlisted : ¬ LocalName lower
  ipv4 : ∀ addr, Ipv4Addr.parse lower = some addr → ipv4IsPrivate addr = false
  ipv6 : ∀ addr, Ipv6Addr.parse lower = some addr → ipv6IsPrivate addr = false

theorem passes_of_not_private (passes : hostIsPrivate (.domain name) = false) : Passes (lowerAscii name) := by
  rw [hostIsPrivate] at passes
  split_ifs at passes with listed zone
  refine ⟨fun found => found.elim (mt any_localNames.mpr listed) zone, ?_, ?_⟩
  · intro addr parsed
    rwa [parsed] at passes
  · intro addr parsed
    cases dotted : Ipv4Addr.parse (lowerAscii name) with
    | some v4 =>
      rw [Ipv6Addr.parse_eq_none dotted] at parsed
      cases parsed
    | none => rwa [dotted, parsed] at passes

theorem Passes.clear (passes : Passes (lowerAscii name)) (seen : ¬ (Host.domain name).Overlooked)
    (dotless : ∀ front, lowerAscii name ≠ front ++ ['.']) : (Host.domain name).Clear Ipv4Addr.Barred := by
  have only : ∀ text, (Host.domain name).Reads text → text = lowerAscii name := by
    intro text reads
    cases reads with
    | whole => rfl
    | dotless dot => exact absurd dot (dotless text)
  have ipv6 : ∀ addr, (Host.domain name).Denotes6 addr → ipv6IsPrivate addr = false := by
    intro addr denotes
    cases denotes with
    | text reads parsed =>
      rw [only _ reads] at parsed
      exact passes.ipv6 addr parsed
  refine ⟨?_, ?_, fun addr denotes => not_private_of_passes (ipv6 addr denotes)⟩
  · intro text reads
    rw [only text reads]
    exact passes.unlisted
  · intro addr denotes
    cases denotes with
    | dotted reads parsed =>
      rw [only _ reads] at parsed
      exact not_barred_of_passes (passes.ipv4 addr parsed)
    | numbers reads parsed =>
      by_cases dotted : Ipv4Addr.parse (lowerAscii name) = some addr
      · exact not_barred_of_passes (passes.ipv4 addr dotted)
      · rw [← only _ reads] at dotted
        exact fun barred => seen (.numbers reads parsed dotted barred)
    | embedded embedding denotes carries =>
      exact not_barred_of_carries seen (ipv6 _ denotes) denotes carries

theorem clear_ipv4_iff (barred : Ipv4Addr → Prop) (ip : Ipv4Addr) : (Host.ipv4 ip).Clear barred ↔ ¬ barred ip := by
  constructor
  · intro clear
    exact clear.ipv4 ip (.literal ip)
  · intro free
    refine ⟨?_, ?_, ?_⟩
    · intro text reads
      cases reads
    · intro addr denotes
      cases denotes with
      | literal => exact free
      | dotted reads => cases reads
      | numbers reads => cases reads
      | embedded embedding denotes =>
        cases denotes with
        | text reads => cases reads
    · intro addr denotes
      cases denotes with
      | text reads => cases reads

theorem clear_of_not_private (passes : hostIsPrivate host = false) (seen : ¬ host.Overlooked) :
    host.Clear Ipv4Addr.Barred := by
  cases host with
  | ipv4 ip => exact (clear_ipv4_iff _ ip).mpr (not_barred_of_passes passes)
  | ipv6 ip =>
    have only : ∀ addr, (Host.ipv6 ip).Denotes6 addr → addr = ip := by
      intro addr denotes
      cases denotes with
      | literal => rfl
      | text reads => cases reads
    refine ⟨?_, ?_, ?_⟩
    · intro text reads
      cases reads
    · intro addr denotes
      cases denotes with
      | dotted reads => cases reads
      | numbers reads => cases reads
      | embedded embedding denotes carries =>
        obtain rfl := only _ denotes
        exact not_barred_of_carries seen passes denotes carries
    · intro addr denotes
      rw [only addr denotes]
      exact not_private_of_passes passes
  | domain name =>
    by_cases dotted : ∃ front, lowerAscii name = front ++ ['.']
    · obtain ⟨front, dot⟩ := dotted
      by_contra hidden
      exact seen (.finalDot dot hidden)
    · exact (passes_of_not_private passes).clear seen (not_exists.mp dotted)

end Host

/-- A name of a cache that no tool takes for an option. -/
structure PlainName (destination : String) : Prop where
  nonempty : destination ≠ ""
  characters : ∀ character ∈ destination.toList, nameCharacter character
  noOption : destination.toList.head? ≠ some '-'

def UrlHost (destination : String) (host : Host) : Prop :=
  ∃ url, parse destination = some url ∧ url.scheme ∈ allowedSchemes ∧ url.host = some host ∧ host ≠ .domain ""

theorem UrlHost.unique {parse : String → Option Url} {destination : String} {host other : Host}
    (names : UrlHost parse destination host) (same : UrlHost parse destination other) : host = other := by
  obtain ⟨url, parsed, -, named, -⟩ := names
  obtain ⟨again, parsedAgain, -, namedAgain, -⟩ := same
  obtain rfl := Option.some.inj (parsed.symm.trans parsedAgain)
  exact Option.some.inj (named.symm.trans namedAgain)

/-- A Cachix name, or a URL that reaches no private host. -/
def MeetsConditions (destination : String) (cacheType : CacheType) : Prop :=
  (cacheType = .cachix ∧ PlainName destination) ∨
    ∃ host, UrlHost parse destination host ∧ host.Clear Ipv4Addr.Private

/-- The same with `://` telling the two apart, and without the broadcast address. -/
def Admissible (destination : String) (cacheType : CacheType) : Prop :=
  if hasScheme destination then ∃ host, UrlHost parse destination host ∧ host.Clear Ipv4Addr.Barred
  else cacheType = .cachix ∧ PlainName destination

/-- A name that looks like an option, or a host in a spelling that is not compared. -/
def Overlooked (destination : String) : Prop :=
  if hasScheme destination then ∃ host, UrlHost parse destination host ∧ host.Overlooked
  else destination.toList.head? = some '-'

theorem accepted_url_iff {destination : String} {cacheType : CacheType} (url : hasScheme destination) :
    validateCacheDestination parse destination cacheType false = .ok () ↔
      ∃ host, UrlHost parse destination host ∧ hostIsPrivate host = false := by
  have nonempty : destination ≠ "" := by
    rintro rfl
    exact absurd url (by decide)
  rw [validateCacheDestination, if_neg nonempty, if_neg (not_not.mpr url)]
  simp only [UrlHost]
  cases parsed : parse destination with
  | none => simp
  | some url =>
    by_cases scheme : url.scheme ∈ allowedSchemes
    · cases named : url.host with
      | none => simp [scheme, named]
      | some host =>
        by_cases empty : host = .domain ""
        · simp [scheme, named, empty]
        · cases passes : hostIsPrivate host <;> simp [scheme, named, empty, passes]
    · simp [scheme]

theorem accepted_name_iff {destination : String} {cacheType : CacheType} (name : ¬ hasScheme destination) :
    validateCacheDestination parse destination cacheType false = .ok () ↔
      destination ≠ "" ∧ cacheType = .cachix ∧ ∀ character ∈ destination.toList, nameCharacter character := by
  rw [validateCacheDestination, if_pos name]
  by_cases empty : destination = ""
  · simp [empty]
  · by_cases cachix : cacheType = .cachix
    · simp [empty, cachix, List.all_eq_true]
    · simp [empty, cachix]

/-- The destinations without a private host are those that are accepted and not
overlooked. -/
theorem admissible_iff (destination : String) (cacheType : CacheType) :
    Admissible parse destination cacheType ↔
      validateCacheDestination parse destination cacheType false = .ok () ∧ ¬ Overlooked parse destination := by
  by_cases url : hasScheme destination
  · rw [accepted_url_iff parse url, Admissible, Overlooked, if_pos url, if_pos url]
    constructor
    · rintro ⟨host, names, clear⟩
      refine ⟨⟨host, names, clear.not_private⟩, ?_⟩
      rintro ⟨other, same, overlooked⟩
      obtain rfl := names.unique same
      exact clear.not_overlooked overlooked
    · rintro ⟨⟨host, names, passes⟩, seen⟩
      exact ⟨host, names, Host.clear_of_not_private passes (fun overlooked => seen ⟨host, names, overlooked⟩)⟩
  · rw [accepted_name_iff parse url, Admissible, Overlooked, if_neg url, if_neg url]
    constructor
    · rintro ⟨cachix, plain⟩
      exact ⟨⟨plain.nonempty, cachix, plain.characters⟩, plain.noOption⟩
    · rintro ⟨⟨nonempty, cachix, characters⟩, noOption⟩
      exact ⟨cachix, nonempty, characters, noOption⟩

def parseBroadcast (destination : String) : Option Url :=
  if destination = "https://255.255.255.255" then some ⟨"https", some (.ipv4 .broadcast)⟩ else none

/-- The broadcast address is in none of the private blocks, and it is not accepted. -/
theorem broadcast_not_accepted :
    ¬ ∀ destination cacheType,
      validateCacheDestination parseBroadcast destination cacheType false = .ok () ↔
        MeetsConditions parseBroadcast destination cacheType := by
  intro claimed
  have reachable : (Host.ipv4 .broadcast).Clear Ipv4Addr.Private := by
    rw [Host.clear_ipv4_iff, Ipv4Addr.private_iff]
    decide
  have accepted := (claimed "https://255.255.255.255" .nixCopy).mpr
    (.inr ⟨_, ⟨_, if_pos rfl, by simp [allowedSchemes], rfl, by decide⟩, reachable⟩)
  revert accepted
  decide

end EkaCI
