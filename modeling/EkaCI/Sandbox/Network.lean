import EkaCI.Sandbox.Cidr

/-! What a filtered sandbox can reach. The policy becomes a list of routes, the list travels
as arguments through two helper processes, and the last one puts the routes into the table
of the sandbox, where the longest prefix decides. -/

namespace EkaCI

structure NetworkPolicy where
  allow : List Ipv4Cidr := []
  deny : List Ipv4Cidr := []

def dnsAddr : Ipv4Addr := .new 192 0 2 53

def defaultDeny : List (Ipv4Addr × Nat) :=
  [(.new 0 0 0 0, 8), (.new 10 0 0 0, 8), (.new 100 64 0 0, 10), (.new 169 254 0 0, 16), (.new 172 16 0 0, 12),
    (.new 192 0 0 0, 24), (.new 192 0 2 0, 24), (.new 192 168 0 0, 16), (.new 198 18 0 0, 15),
    (.new 198 51 100 0, 24), (.new 203 0 113 0, 24), (.new 224 0 0 0, 4), (.new 240 0 0 0, 4)]

/-- No built-in entry is refused, so none is lost here. -/
def defaultPrefixes : List Ipv4Cidr :=
  defaultDeny.filterMap fun entry => (Ipv4Cidr.new entry.1 entry.2).toOption

theorem defaultDeny_valid :
    defaultPrefixes.map (fun cidr => (cidr.addr, cidr.prefixLen)) = defaultDeny := by
  decide

inductive Route where
  | unreachable (cidr : Ipv4Cidr)
  | viaGateway (cidr : Ipv4Cidr)

theorem everywhere_clear : (0#32 : BitVec 32) &&& ~~~mask 0 = 0#32 := rfl

/-- `0.0.0.0/0` -/
def everywhere : Ipv4Cidr := ⟨⟨0#32⟩, 0, Nat.zero_le 32, everywhere_clear⟩

/-- Everything the plan makes unreachable. -/
def deniedPrefixes (policy : NetworkPolicy) (hostAddrs : List Ipv4Addr) : List Ipv4Cidr :=
  defaultPrefixes ++ hostAddrs.map Ipv4Cidr.host ++ policy.deny

/-- A route takes the place of an earlier one for the same prefix: allow wins ties. -/
def routePlan (policy : NetworkPolicy) (hostAddrs : List Ipv4Addr) : List Route :=
  (deniedPrefixes policy hostAddrs).map .unreachable ++
    [.viaGateway everywhere, .viaGateway (.host dnsAddr)] ++ policy.allow.map .viaGateway

structure NetArgs where
  routes : List Route := []
  userns : Option String := none
  netns : Option String := none
  pasta : Option String := none
  command : List String := []

inductive NetError where
  | missingValue (flag : String)
  | unknownArgument (flag : String)
  | cidr (cause : CidrError)
  | pastaRequired
  | noCommand

def parseCidr (value : String) : Except NetError Ipv4Cidr := (Ipv4Cidr.parse value).mapError .cidr

/-- The loop over the arguments, with what has been read so far. -/
def readArgs (out : NetArgs) : List String → Except NetError NetArgs
  | [] => .ok out
  | [flag] => if flag = "--" then .ok { out with command := [] } else .error (.missingValue flag)
  | flag :: value :: rest =>
    if flag = "--" then .ok { out with command := value :: rest }
    else if flag = "--unreachable" then do
      let cidr ← parseCidr value
      readArgs { out with routes := out.routes ++ [.unreachable cidr] } rest
    else if flag = "--via" then do
      let cidr ← parseCidr value
      readArgs { out with routes := out.routes ++ [.viaGateway cidr] } rest
    else if flag = "--userns" then readArgs { out with userns := some value } rest
    else if flag = "--netns" then readArgs { out with netns := some value } rest
    else if flag = "--pasta" then readArgs { out with pasta := some value } rest
    else .error (.unknownArgument flag)

def parseArgs (args : List String) : Except NetError NetArgs := readArgs {} args

def Route.args : Route → List String
  | .unreachable cidr => ["--unreachable", cidr.display]
  | .viaGateway cidr => ["--via", cidr.display]

def routeArgs (plan : List Route) : List String := plan.flatMap Route.args

/-- What the helpers are started with besides the routes. -/
structure Launch where
  pasta : String
  bwrap : String
  bwrapArgs : List String
  netns : String
  userns : String

/-- The arguments of the attach helper, after its own flag. -/
def attachArgs (launch : Launch) (plan : List Route) : List String :=
  ["--pasta", launch.pasta] ++ routeArgs plan ++ ["--", launch.bwrap] ++ launch.bwrapArgs

/-- The attach helper hands the routes on to the setup helper. -/
def attachRun (launch : Launch) (args : List String) : Except NetError (List String) := do
  let parsed ← parseArgs args
  match parsed.pasta with
  | none => .error .pastaRequired
  | some _ =>
    if parsed.command = [] then .error .noCommand
    else .ok (["--netns", launch.netns, "--userns", launch.userns] ++ routeArgs parsed.routes)

/-- Where a route leads. Only pasta makes routes to the link itself. -/
inductive Hop where
  | unreachable
  | gateway
  | link
  deriving DecidableEq

abbrev KernelRoutes := Lib.RouteTable Ipv4Cidr Hop

def Route.entry : Route → Ipv4Cidr × Hop
  | .unreachable cidr => (cidr, .unreachable)
  | .viaGateway cidr => (cidr, .gateway)

/-- The setup helper replaces one route after the other. -/
def setupRun (kernel : KernelRoutes) (args : List String) : Except NetError KernelRoutes := do
  let parsed ← parseArgs args
  .ok (kernel.install (parsed.routes.map Route.entry))

theorem linkNet_clear : (Ipv4Addr.new 192 0 2 0).bits &&& ~~~mask 24 = 0#32 := by decide

/-- The net that `--address 192.0.2.2 --netmask 24` puts on the link. -/
def linkNet : Ipv4Cidr := ⟨.new 192 0 2 0, 24, Nat.le_of_ble_eq_true rfl, linkNet_clear⟩

theorem linkNet_ne_everywhere : linkNet ≠ everywhere := by decide

/-- The table that pasta leaves before the setup helper goes to work. -/
def pastaRoutes : KernelRoutes where
  entries := [(linkNet, .link), (everywhere, .gateway)]
  nodup := List.nodup_cons.mpr
    ⟨fun member => linkNet_ne_everywhere (List.mem_singleton.mp member), List.nodup_singleton everywhere⟩

/-- From the policy to the table of the sandbox. -/
def sandboxRoutes (launch : Launch) (policy : NetworkPolicy) (hostAddrs : List Ipv4Addr) :
    Except NetError KernelRoutes := do
  let setupArgs ← attachRun launch (attachArgs launch (routePlan policy hostAddrs))
  setupRun pastaRoutes setupArgs

def reachable (kernel : KernelRoutes) (addr : Ipv4Addr) : Bool :=
  match kernel.lookup Ipv4Cidr.cover addr with
  | some .gateway => true
  | some .link => true
  | _ => false

section Arguments

theorem readArgs_routeArgs (plan : List Route) (out : NetArgs) (rest : List String) :
    readArgs out (routeArgs plan ++ rest) = readArgs { out with routes := out.routes ++ plan } rest := by
  induction plan generalizing out with
  | nil => simp [routeArgs]
  | cons route plan ih =>
    have head : routeArgs (route :: plan) ++ rest = route.args ++ (routeArgs plan ++ rest) := by
      simp [routeArgs]
    rw [head]
    cases route with
    | unreachable cidr =>
      simp [Route.args, readArgs, parseCidr, Ipv4Cidr.parse_display, Except.mapError, bind, Except.bind, ih]
    | viaGateway cidr =>
      simp [Route.args, readArgs, parseCidr, Ipv4Cidr.parse_display, Except.mapError, bind, Except.bind, ih]

theorem readArgs_routeArgs_end (plan : List Route) (out : NetArgs) :
    readArgs out (routeArgs plan) = .ok { out with routes := out.routes ++ plan } := by
  have whole := readArgs_routeArgs plan out []
  rwa [List.append_nil] at whole

theorem parseArgs_attachArgs (launch : Launch) (plan : List Route) :
    parseArgs (attachArgs launch plan) =
      .ok { routes := plan, pasta := some launch.pasta, command := launch.bwrap :: launch.bwrapArgs } := by
  simp [parseArgs, attachArgs, readArgs, readArgs_routeArgs]

theorem parseArgs_setupArgs (launch : Launch) (plan : List Route) :
    parseArgs (["--netns", launch.netns, "--userns", launch.userns] ++ routeArgs plan) =
      .ok { routes := plan, netns := some launch.netns, userns := some launch.userns } := by
  simp [parseArgs, readArgs, readArgs_routeArgs_end]

theorem sandboxRoutes_eq (launch : Launch) (policy : NetworkPolicy) (hostAddrs : List Ipv4Addr) :
    sandboxRoutes launch policy hostAddrs =
      .ok (pastaRoutes.install ((routePlan policy hostAddrs).map Route.entry)) := by
  have attached : attachRun launch (attachArgs launch (routePlan policy hostAddrs)) =
      .ok (["--netns", launch.netns, "--userns", launch.userns] ++ routeArgs (routePlan policy hostAddrs)) := by
    rw [attachRun, parseArgs_attachArgs]
    rfl
  rw [sandboxRoutes, attached]
  dsimp only [bind, Except.bind]
  rw [setupRun, parseArgs_setupArgs]
  rfl

end Arguments

section Reachability

variable (policy : NetworkPolicy) (hostAddrs : List Ipv4Addr)

/-- Everything the plan sends to the gateway. -/
def openedPrefixes : List Ipv4Cidr := everywhere :: .host dnsAddr :: policy.allow

theorem routePlan_entries :
    (routePlan policy hostAddrs).map Route.entry =
      (deniedPrefixes policy hostAddrs).map (·, .unreachable) ++ (openedPrefixes policy).map (·, .gateway) := by
  simp [routePlan, openedPrefixes, Route.entry, Function.comp_def]

theorem linkNet_denied : linkNet ∈ deniedPrefixes policy hostAddrs := by
  have listed : linkNet ∈ defaultPrefixes := by decide
  exact List.mem_append_left _ (List.mem_append_left _ listed)

/-- The table holds the two kinds of prefixes and nothing of what was there before: a prefix
that is both denied and opened is open. -/
theorem mem_plan_installed {cidr : Ipv4Cidr} {hop : Hop} :
    (cidr, hop) ∈ (pastaRoutes.install ((routePlan policy hostAddrs).map Route.entry)).entries ↔
      (cidr ∈ openedPrefixes policy ∧ hop = .gateway) ∨
        (cidr ∉ openedPrefixes policy ∧ cidr ∈ deniedPrefixes policy hostAddrs ∧ hop = .unreachable) := by
  rw [routePlan_entries, Lib.RouteTable.install_append, Lib.RouteTable.mem_install_map,
    Lib.RouteTable.mem_install_map]
  have before : (cidr, hop) ∈ pastaRoutes.entries →
      cidr ∈ openedPrefixes policy ∨ cidr ∈ deniedPrefixes policy hostAddrs := by
    intro member
    simp only [pastaRoutes, List.mem_cons, Prod.mk.injEq, List.not_mem_nil, or_false] at member
    rcases member with ⟨rfl, -⟩ | ⟨rfl, -⟩
    · exact Or.inr (linkNet_denied policy hostAddrs)
    · exact Or.inl List.mem_cons_self
  constructor
  · rintro (⟨opened, rfl⟩ | ⟨closed, ⟨denied, rfl⟩ | ⟨absent, member⟩⟩)
    · exact Or.inl ⟨opened, rfl⟩
    · exact Or.inr ⟨closed, denied, rfl⟩
    · rcases before member with opened | denied
      · exact absurd opened closed
      · exact absurd denied absent
  · rintro (⟨opened, rfl⟩ | ⟨closed, denied, rfl⟩)
    · exact Or.inl ⟨opened, rfl⟩
    · exact Or.inr ⟨closed, Or.inl ⟨denied, rfl⟩⟩

theorem everywhere_contains (addr : Ipv4Addr) : everywhere.contains addr = true := by
  simp [everywhere, Ipv4Cidr.contains, mask_zero]

theorem reachable_plan_iff (addr : Ipv4Addr) :
    reachable (pastaRoutes.install ((routePlan policy hostAddrs).map Route.entry)) addr = true ↔
      ∃ cidr ∈ openedPrefixes policy, cidr.contains addr = true ∧
        ∀ denied ∈ deniedPrefixes policy hostAddrs, denied.contains addr = true →
          denied.prefixLen ≤ cidr.prefixLen := by
  have installed := @mem_plan_installed policy hostAddrs
  generalize pastaRoutes.install ((routePlan policy hostAddrs).map Route.entry) = kernel at installed ⊢
  have base : (everywhere, Hop.gateway) ∈ kernel.entries := installed.mpr (Or.inl ⟨List.mem_cons_self, rfl⟩)
  obtain ⟨hop, found⟩ := Lib.RouteTable.exists_lookup Ipv4Cidr.cover base (everywhere_contains addr)
  obtain ⟨key, listed, covered, longest⟩ := Lib.RouteTable.exists_of_lookup found
  rcases installed.mp listed with ⟨opened, rfl⟩ | ⟨closed, denied, rfl⟩
  · refine iff_of_true (by simp [reachable, found]) ⟨key, opened, covered, fun other member contains => ?_⟩
    by_cases also : other ∈ openedPrefixes policy
    · exact longest (other, .gateway) (installed.mpr (Or.inl ⟨also, rfl⟩)) contains
    · exact longest (other, .unreachable) (installed.mpr (Or.inr ⟨also, member, rfl⟩)) contains
  · apply iff_of_false (by simp [reachable, found])
    rintro ⟨cidr, opened, contains, dominates⟩
    -- The open prefix is as long as the denied one that decides, so the two are the same.
    have atLeast : key.prefixLen ≤ cidr.prefixLen := dominates key denied covered
    have atMost : cidr.prefixLen ≤ key.prefixLen :=
      longest (cidr, .gateway) (installed.mpr (Or.inl ⟨opened, rfl⟩)) contains
    have same : key = cidr := Ipv4Cidr.cover.unique covered contains (Nat.le_antisymm atLeast atMost)
    exact closed (same ▸ opened)

/-- What the policy says: nothing denies the address, or something allows it that is at least
as long as all that denies it. -/
def PolicyAllows (addr : Ipv4Addr) : Prop :=
  (∀ denied ∈ deniedPrefixes policy hostAddrs, ¬denied.contains addr = true) ∨
    ∃ cidr ∈ Ipv4Cidr.host dnsAddr :: policy.allow, cidr.contains addr = true ∧
      ∀ denied ∈ deniedPrefixes policy hostAddrs, denied.contains addr = true → denied.prefixLen ≤ cidr.prefixLen

instance (addr : Ipv4Addr) : Decidable (PolicyAllows policy hostAddrs addr) := inferInstanceAs (Decidable (_ ∨ _))

theorem eq_everywhere {cidr : Ipv4Cidr} {addr : Ipv4Addr} (contains : cidr.contains addr = true)
    (short : cidr.prefixLen ≤ everywhere.prefixLen) : cidr = everywhere :=
  Ipv4Cidr.cover.unique contains (everywhere_contains addr) (Nat.le_zero.mp short)

theorem everywhere_mem_denied : everywhere ∈ deniedPrefixes policy hostAddrs ↔ everywhere ∈ policy.deny := by
  have builtIn : everywhere ∉ defaultPrefixes := by decide
  have host : everywhere ∉ hostAddrs.map Ipv4Cidr.host := by
    intro member
    obtain ⟨addr, -, same⟩ := List.mem_map.mp member
    exact absurd (congrArg Ipv4Cidr.prefixLen same) (by simp [Ipv4Cidr.host, everywhere])
  simp [deniedPrefixes, builtIn, host]

theorem dnsAddr_denied {addr : Ipv4Addr} (contains : (Ipv4Cidr.host dnsAddr).contains addr = true) :
    ∃ denied ∈ deniedPrefixes policy hostAddrs, denied ≠ everywhere ∧ denied.contains addr = true := by
  have same : addr = dnsAddr := (Ipv4Cidr.contains_host dnsAddr addr).mp contains
  subst addr
  exact ⟨linkNet, linkNet_denied policy hostAddrs, linkNet_ne_everywhere, by decide⟩

theorem opened_of_policyAllows {addr : Ipv4Addr} (allows : PolicyAllows policy hostAddrs addr) :
    ∃ cidr ∈ openedPrefixes policy, cidr.contains addr = true ∧
      ∀ denied ∈ deniedPrefixes policy hostAddrs, denied.contains addr = true →
        denied.prefixLen ≤ cidr.prefixLen := by
  rcases allows with none | ⟨cidr, member, contains, dominates⟩
  · exact ⟨everywhere, List.mem_cons_self, everywhere_contains addr,
      fun denied member contains => absurd contains (none denied member)⟩
  · exact ⟨cidr, List.mem_cons_of_mem _ member, contains, dominates⟩

/-- The default route goes into the table after the policy's denied prefixes, and takes the
place of `0.0.0.0/0` among them. The sandbox reaches what the policy allows unless that is
the only thing said about the address. -/
theorem sandbox_reaches_allowed_iff (launch : Launch) (addr : Ipv4Addr) :
    ∃ kernel, sandboxRoutes launch policy hostAddrs = .ok kernel ∧
      ((reachable kernel addr = true ↔ PolicyAllows policy hostAddrs addr) ↔
        (everywhere ∈ policy.deny →
          (∃ denied ∈ deniedPrefixes policy hostAddrs, denied ≠ everywhere ∧ denied.contains addr = true) ∨
            ∃ cidr ∈ policy.allow, cidr.contains addr = true)) := by
  refine ⟨_, sandboxRoutes_eq launch policy hostAddrs, ?_⟩
  rw [reachable_plan_iff]
  constructor
  · intro same denied
    by_cases other : ∃ denied ∈ deniedPrefixes policy hostAddrs, denied ≠ everywhere ∧ denied.contains addr = true
    · exact Or.inl other
    -- Nothing else denies the address, so the default route reaches it and the policy must allow it.
    have opened : ∀ denied ∈ deniedPrefixes policy hostAddrs, denied.contains addr = true →
        denied.prefixLen ≤ everywhere.prefixLen := by
      intro found member contains
      by_cases whole : found = everywhere
      · exact le_of_eq (congrArg Ipv4Cidr.prefixLen whole)
      · exact absurd ⟨found, member, whole, contains⟩ other
    have allows := same.mp ⟨everywhere, List.mem_cons_self, everywhere_contains addr, opened⟩
    rcases allows with none | ⟨cidr, member, contains, -⟩
    · exact absurd (everywhere_contains addr) (none _ ((everywhere_mem_denied policy hostAddrs).mpr denied))
    · rcases List.mem_cons.mp member with rfl | allowed
      · exact Or.inl (dnsAddr_denied policy hostAddrs contains)
      · exact Or.inr ⟨cidr, allowed, contains⟩
  · intro condition
    refine ⟨?_, opened_of_policyAllows policy hostAddrs⟩
    rintro ⟨cidr, member, contains, dominates⟩
    rcases List.mem_cons.mp member with rfl | named
    swap
    · exact Or.inr ⟨cidr, named, contains, dominates⟩
    by_cases none : ∀ denied ∈ deniedPrefixes policy hostAddrs, ¬denied.contains addr = true
    · exact Or.inl none
    simp only [not_forall, not_not] at none
    obtain ⟨denied, listed, deniedContains⟩ := none
    have whole : denied = everywhere := eq_everywhere deniedContains (dominates denied listed deniedContains)
    subst denied
    rcases condition ((everywhere_mem_denied policy hostAddrs).mp listed) with
      ⟨other, otherListed, different, otherContains⟩ | ⟨allowed, allowedListed, allowedContains⟩
    · exact absurd (eq_everywhere otherContains (dominates other otherListed otherContains)) different
    · refine Or.inr ⟨allowed, List.mem_cons_of_mem _ allowedListed, allowedContains, ?_⟩
      exact fun found foundListed foundContains =>
        Nat.le_trans (dominates found foundListed foundContains) (Nat.zero_le _)

/-- With `0.0.0.0/0` denied and nothing allowed, `8.8.8.8` can be reached. -/
theorem denied_everywhere_reachable :
    ∃ kernel,
      sandboxRoutes ⟨"pasta", "bwrap", [], "/proc/self/fd/6", "/proc/self/fd/7"⟩ ⟨[], [everywhere]⟩ [] = .ok kernel ∧
        ¬(reachable kernel (.new 8 8 8 8) = true ↔ PolicyAllows ⟨[], [everywhere]⟩ [] (.new 8 8 8 8)) := by
  refine ⟨_, sandboxRoutes_eq _ _ _, ?_⟩
  decide

end Reachability

end EkaCI
