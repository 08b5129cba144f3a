import EkaCI.Lib.Wire
import EkaCI.Sandbox.Network
import Mathlib.Algebra.Ring.Int.Defs

/-! The routes on their way into the kernel: one message of rtnetlink for each, in the byte
order of the machine, and one answer to each that says whether the kernel took it. -/

namespace EkaCI

open Lib

def nlmsgHdrLen : Nat := 16

def rtmNewroute : Nat := 24

def nlmsgError : Nat := 2

/-- `NLM_F_REQUEST | NLM_F_ACK | NLM_F_CREATE | NLM_F_REPLACE` -/
def nlFlags : Nat := 0x1 ||| 0x4 ||| 0x400 ||| 0x100

def afInet : UInt8 := 2

def rtTableMain : UInt8 := 254

def rtprotStatic : UInt8 := 4

def rtnUnicast : UInt8 := 1

def rtnUnreachable : UInt8 := 7

def rtScopeUniverse : UInt8 := 0

/-- The first scope that is too narrow for a gateway. -/
def rtScopeLink : UInt8 := 253

def rtScopeNowhere : UInt8 := 255

def rtnhFOnlink : Nat := 4

def rtaDst : Nat := 1

def rtaOif : Nat := 4

def rtaGateway : Nat := 5

def gateway : Ipv4Addr := .new 192 0 2 1

def Ipv4Addr.octets (addr : Ipv4Addr) : List UInt8 := [addr.octet 3, addr.octet 2, addr.octet 1, addr.octet 0]

section Message

variable (order : ByteOrder)

def rtmsg (cidr : Ipv4Cidr) (kind scope : UInt8) (flags : Nat) : List UInt8 :=
  [afInet, UInt8.ofNat cidr.prefixLen, 0, 0, rtTableMain, rtprotStatic, scope, kind] ++ order.bytes 4 flags

def pushAttr (out : List UInt8) (kind : Nat) (data : List UInt8) : List UInt8 :=
  let len := 4 + data.length
  out ++ order.bytes 2 len ++ order.bytes 2 kind ++ data ++ List.replicate ((4 - len % 4) % 4) 0

def routeBody (route : Route) (ifindex : Nat) (gw : Ipv4Addr) : List UInt8 :=
  let (cidr, kind, scope, flags) :=
    match route with
    | .unreachable cidr => (cidr, rtnUnreachable, rtScopeNowhere, 0)
    | .viaGateway cidr => (cidr, rtnUnicast, rtScopeUniverse, rtnhFOnlink)
  let body := rtmsg order cidr kind scope flags
  let body := if 0 < cidr.prefixLen then pushAttr order body rtaDst cidr.addr.octets else body
  match route with
  | .viaGateway _ => pushAttr order (pushAttr order body rtaGateway gw.octets) rtaOif (order.bytes 4 ifindex)
  | .unreachable _ => body

def routeMessage (route : Route) (ifindex : Nat) (gw : Ipv4Addr) (seq : Nat) : List UInt8 :=
  let body := routeBody order route ifindex gw
  order.bytes 4 (nlmsgHdrLen + body.length) ++ order.bytes 2 rtmNewroute ++ order.bytes 2 nlFlags ++
    order.bytes 4 seq ++ order.bytes 4 0 ++ body

inductive AckError where
  | malformed
  | os (errno : Int)

/-- The number of 32 bits with its sign. -/
def toI32 (number : Nat) : Int := if number < 2 ^ 31 then number else number - 2 ^ 32

def parseAck (reply : List UInt8) : Except AckError Unit :=
  if reply.length < 6 then .error .malformed
  else if order.number ((reply.drop 4).take 2) ≠ nlmsgError then .error .malformed
  else if reply.length < 20 then .error .malformed
  else
    let errno := toI32 (order.number ((reply.drop 16).take 4))
    if errno = 0 then .ok () else .error (.os (-errno))

end Message

/-- Where the kernel is told to send what the route covers. -/
inductive RouteTarget where
  | unreachable
  | via (gateway : Ipv4Addr) (oif : Nat)

/-- What the kernel reads in a message about a route. -/
structure RouteRequest where
  acknowledges : Bool
  creates : Bool
  replaces : Bool
  seq : Nat
  cidr : Ipv4Cidr
  target : RouteTarget

section Kernel

variable (order : ByteOrder)

def readOctets : List UInt8 → Option Ipv4Addr
  | [a, b, c, d] => some (.new a b c d)
  | _ => none

/-- Without a destination it is `0.0.0.0`; bits outside of the prefix are refused. -/
def readDestination (prefixLen : UInt8) (attrs : List (Nat × List UInt8)) : Option Ipv4Cidr := do
  let addr ←
    match attrs.lookup rtaDst with
    | some octets => readOctets octets
    | none => some ⟨0#32⟩
  (Ipv4Cidr.new addr prefixLen.toNat).toOption

/-- An unreachable route has neither gateway nor device. A gateway that no other route leads
to needs the device it is on. -/
def readTarget (kind scope : UInt8) (flags : Nat) (attrs : List (Nat × List UInt8)) : Option RouteTarget :=
  if kind = rtnUnreachable then
    if (attrs.lookup rtaGateway).isSome ∨ (attrs.lookup rtaOif).isSome then none else some .unreachable
  else if kind = rtnUnicast ∧ scope < rtScopeLink ∧ flags = rtnhFOnlink then do
    let gateway ← (attrs.lookup rtaGateway).bind readOctets
    let (oif, rest) ← (attrs.lookup rtaOif).bind (order.read 4)
    if rest = [] then some (.via gateway oif) else none
  else none

/-- `struct rtmsg` and the attributes behind it. -/
def readRouteBody : List UInt8 → Option (Ipv4Cidr × RouteTarget)
  | family :: prefixLen :: srcLen :: tos :: table :: _protocol :: scope :: kind :: rest => do
    let (routeFlags, rest) ← order.read 4 rest
    let attrs ← Attribute.readAll order rest.length rest
    if family = afInet ∧ srcLen = 0 ∧ tos = 0 ∧ table = rtTableMain then do
      let cidr ← readDestination prefixLen attrs
      let target ← readTarget order kind scope routeFlags attrs
      some (cidr, target)
    else none
  | _ => none

def readRouteRequest (message : List UInt8) : Option RouteRequest := do
  let (length, rest) ← order.read 4 message
  let (kind, rest) ← order.read 2 rest
  let (flags, rest) ← order.read 2 rest
  let (seq, rest) ← order.read 4 rest
  let (_port, rest) ← order.read 4 rest
  if length = message.length ∧ kind = rtmNewroute ∧ flags.testBit 0 = true then do
    let (cidr, target) ← readRouteBody order rest
    some ⟨flags.testBit 2, flags.testBit 10, flags.testBit 8, seq, cidr, target⟩
  else none

end Kernel

/-- The network of the sandbox: its routes, and the index of its device while there is one. -/
structure SandboxNet where
  routes : KernelRoutes
  link : Option Nat

def RouteTarget.hop : RouteTarget → Hop
  | .unreachable => .unreachable
  | .via _ _ => .gateway

/-- The number of an error, as the kernel has them. -/
abbrev Errno := { errno : Nat // 0 < errno ∧ errno < 4096 }

namespace SandboxNet

/-- Only a device that exists can be named. -/
def hasDevice (net : SandboxNet) : RouteTarget → Bool
  | .unreachable => true
  | .via _ oif => net.link = some oif

/-- `NLM_F_REPLACE` and `NLM_F_CREATE` say what may become of the table: `ENODEV`, `EEXIST`
and `ENOENT` are the refusals. -/
def perform (net : SandboxNet) (request : RouteRequest) : Nat × SandboxNet :=
  let changed := { net with routes := net.routes.replace request.cidr request.target.hop }
  if net.hasDevice request.target = false then (19, net)
  else if request.cidr ∈ net.routes.entries.map Prod.fst then
    if request.replaces then (0, changed) else (17, net)
  else if request.creates then (0, changed) else (2, net)

/-- What the kernel makes of a message; it may refuse a route for reasons of its own. -/
def receive (order : ByteOrder) (refusal : Option Errno) (net : SandboxNet) (message : List UInt8) : Nat × SandboxNet :=
  match readRouteRequest order message, refusal with
  | none, _ => (22, net)
  | some _, some errno => (errno.val, net)
  | some request, none => net.perform request

/-- The answer quotes the header of the message. -/
def answer (order : ByteOrder) (port errno : Nat) (message : List UInt8) : List UInt8 :=
  order.bytes 4 36 ++ order.bytes 2 nlmsgError ++ order.bytes 2 0 ++ (message.drop 8).take 4 ++ order.bytes 4 port ++
    order.bytes 4 ((2 ^ 32 - errno) % 2 ^ 32) ++ message.take nlmsgHdrLen

end SandboxNet

/-- The socket, with the answers that have not been received. -/
structure Netlink where
  seq : Nat
  port : Nat
  replies : List (List UInt8)

/-- What may go wrong besides the message. -/
inductive NetlinkFault where
  | send (errno : Errno)
  | refused (errno : Errno)
  | recv (errno : Errno)

def NetlinkFault.refusal : Option NetlinkFault → Option Errno
  | some (.refused errno) => some errno
  | _ => none

namespace Netlink

def recvAck (order : ByteOrder) (fault : Option NetlinkFault) (netlink : Netlink) : Except AckError Unit × Netlink :=
  match fault, netlink.replies with
  | some (.recv errno), _ => (.error (.os errno.val), netlink)
  | _, [] => (.error .malformed, netlink)
  | _, reply :: rest => (parseAck order reply, { netlink with replies := rest })

/-- One route: the message goes out, the kernel answers, the answer is read. -/
def replace (order : ByteOrder) (fault : Option NetlinkFault) (route : Route) (ifindex : Nat) (gw : Ipv4Addr)
    (netlink : Netlink) (net : SandboxNet) : Except AckError Unit × Netlink × SandboxNet :=
  let netlink := { netlink with seq := netlink.seq + 1 }
  let message := routeMessage order route ifindex gw netlink.seq
  match fault with
  | some (.send errno) => (.error (.os errno.val), netlink, net)
  | _ =>
    let handled := net.receive order (NetlinkFault.refusal fault) message
    let reply := SandboxNet.answer order netlink.port handled.1 message
    let acked := recvAck order fault { netlink with replies := netlink.replies ++ [reply] }
    (acked.1, acked.2, handled.2)

/-- The loop of the setup helper over its routes ends at the first error. -/
def replaceAll (order : ByteOrder) (faults : Nat → Option NetlinkFault) (ifindex : Nat) (gw : Ipv4Addr) :
    List Route → Netlink → SandboxNet → Except AckError Unit × Netlink × SandboxNet
  | [], netlink, net => (.ok (), netlink, net)
  | route :: rest, netlink, net =>
    match netlink.replace order (faults netlink.seq) route ifindex gw net with
    | (.ok (), netlink, net) => replaceAll order faults ifindex gw rest netlink net
    | failed => failed

end Netlink

namespace Route

def cidr : Route → Ipv4Cidr
  | .unreachable cidr => cidr
  | .viaGateway cidr => cidr

def target (ifindex : Nat) (gw : Ipv4Addr) : Route → RouteTarget
  | .unreachable _ => .unreachable
  | .viaGateway _ => .via gw ifindex

theorem entry_eq (route : Route) (ifindex : Nat) (gw : Ipv4Addr) :
    route.entry = (route.cidr, (route.target ifindex gw).hop) := by
  cases route with
  | unreachable cidr => rfl
  | viaGateway cidr => rfl

end Route

section RoundTrip

variable (order : ByteOrder)

/-- An attribute of four bytes. -/
def wordAttr (kind : Nat) (fits : kind < 65536) (data : List UInt8) (word : data.length = 4) : Attribute :=
  ⟨kind, data, fits, by omega⟩

def dstAttr (cidr : Ipv4Cidr) : Attribute := wordAttr rtaDst (by decide) cidr.addr.octets rfl

def gatewayAttr (gw : Ipv4Addr) : Attribute := wordAttr rtaGateway (by decide) gw.octets rfl

def oifAttr (ifindex : Nat) : Attribute :=
  wordAttr rtaOif (by decide) (order.bytes 4 ifindex) (order.length_bytes 4 ifindex)

/-- What stands behind `struct rtmsg`. -/
def routeAttrs (route : Route) (ifindex : Nat) (gw : Ipv4Addr) : List Attribute :=
  (if 0 < route.cidr.prefixLen then [dstAttr route.cidr] else []) ++
    match route with
    | .viaGateway _ => [gatewayAttr gw, oifAttr order ifindex]
    | .unreachable _ => []

theorem pushAttr_eq (out : List UInt8) (attr : Attribute) :
    pushAttr order out attr.kind attr.data = out ++ attr.bytes order := by
  simp only [pushAttr, Attribute.bytes, Attribute.padding, List.append_assoc]

def routeHead (route : Route) : List UInt8 :=
  match route with
  | .unreachable cidr => rtmsg order cidr rtnUnreachable rtScopeNowhere 0
  | .viaGateway cidr => rtmsg order cidr rtnUnicast rtScopeUniverse rtnhFOnlink

variable (route : Route) (cidr : Ipv4Cidr) (ifindex : Nat) (gw : Ipv4Addr)

theorem routeBody_eq :
    routeBody order route ifindex gw =
      routeHead order route ++ (routeAttrs order route ifindex gw).flatMap (Attribute.bytes order) := by
  have dst : ∀ (out : List UInt8) (cidr : Ipv4Cidr),
      pushAttr order out rtaDst cidr.addr.octets = out ++ (dstAttr cidr).bytes order :=
    fun out cidr => pushAttr_eq order out (dstAttr cidr)
  have gateway : ∀ out : List UInt8, pushAttr order out rtaGateway gw.octets = out ++ (gatewayAttr gw).bytes order :=
    fun out => pushAttr_eq order out (gatewayAttr gw)
  have oif : ∀ out : List UInt8,
      pushAttr order out rtaOif (order.bytes 4 ifindex) = out ++ (oifAttr order ifindex).bytes order :=
    fun out => pushAttr_eq order out (oifAttr order ifindex)
  cases route with
  | unreachable cidr =>
    by_cases long : 0 < cidr.prefixLen
    · simp [routeBody, routeHead, routeAttrs, Route.cidr, long, dst]
    · simp [routeBody, routeHead, routeAttrs, Route.cidr, long]
  | viaGateway cidr =>
    by_cases long : 0 < cidr.prefixLen
    · simp [routeBody, routeHead, routeAttrs, Route.cidr, long, dst, gateway, oif]
    · simp [routeBody, routeHead, routeAttrs, Route.cidr, long, gateway, oif]

theorem readOctets_octets (addr : Ipv4Addr) : readOctets addr.octets = some addr := by
  rw [Ipv4Addr.octets, readOctets, Ipv4Addr.new_octets]

theorem addr_of_prefixLen_zero {cidr : Ipv4Cidr} (short : ¬0 < cidr.prefixLen) : cidr.addr = ⟨0#32⟩ := by
  have zero : cidr.prefixLen = 0 := by omega
  have clear := cidr.noHostBits
  rw [zero, mask_zero] at clear
  cases same : cidr.addr with
  | mk bits =>
    have ones : ~~~(0#32) = BitVec.allOnes 32 := rfl
    rw [same, ones, BitVec.and_allOnes] at clear
    exact congrArg Ipv4Addr.mk clear

theorem toNat_prefixLen : (UInt8.ofNat cidr.prefixLen).toNat = cidr.prefixLen := by
  have short := cidr.short
  rw [UInt8.toNat_ofNat']
  omega

/-- The attributes as the kernel sees them. -/
def routePairs (route : Route) (ifindex : Nat) (gw : Ipv4Addr) : List (Nat × List UInt8) :=
  (routeAttrs order route ifindex gw).map fun attr => (attr.kind, attr.data)

section Lookup

variable (ifindex : Nat) (gw : Ipv4Addr)

theorem lookup_dst (route : Route) : (routePairs order route ifindex gw).lookup rtaDst =
    if 0 < route.cidr.prefixLen then some route.cidr.addr.octets else none := by
  cases route with
  | unreachable cidr =>
    by_cases long : 0 < cidr.prefixLen <;>
      simp [routePairs, routeAttrs, Route.cidr, long, dstAttr, wordAttr]
  | viaGateway cidr =>
    by_cases long : 0 < cidr.prefixLen
    · simp [routePairs, routeAttrs, Route.cidr, long, dstAttr, wordAttr]
    · simp [routePairs, routeAttrs, Route.cidr, long, gatewayAttr, oifAttr, wordAttr, rtaDst, rtaGateway, rtaOif,
        List.lookup_cons, List.lookup_nil]

theorem lookup_gateway_via (cidr : Ipv4Cidr) :
    (routePairs order (.viaGateway cidr) ifindex gw).lookup rtaGateway = some gw.octets := by
  by_cases long : 0 < cidr.prefixLen <;>
    simp [routePairs, routeAttrs, Route.cidr, long, dstAttr, gatewayAttr, wordAttr, rtaDst, rtaGateway, List.lookup_cons]

theorem lookup_oif_via (cidr : Ipv4Cidr) :
    (routePairs order (.viaGateway cidr) ifindex gw).lookup rtaOif = some (order.bytes 4 ifindex) := by
  by_cases long : 0 < cidr.prefixLen <;>
    simp [routePairs, routeAttrs, Route.cidr, long, dstAttr, gatewayAttr, oifAttr, wordAttr, rtaDst, rtaGateway,
      rtaOif, List.lookup_cons]

theorem lookup_unreachable (cidr : Ipv4Cidr) {kind : Nat} (other : kind ≠ rtaDst) :
    (routePairs order (.unreachable cidr) ifindex gw).lookup kind = none := by
  have different : (kind == rtaDst) = false := beq_false_of_ne other
  by_cases long : 0 < cidr.prefixLen <;>
    simp [routePairs, routeAttrs, Route.cidr, long, dstAttr, wordAttr, List.lookup_cons, List.lookup_nil, different]

end Lookup

theorem readDestination_routePairs :
    readDestination (UInt8.ofNat route.cidr.prefixLen) (routePairs order route ifindex gw) = some route.cidr := by
  have whole := Ipv4Cidr.new_self route.cidr
  rw [readDestination, lookup_dst, toNat_prefixLen]
  by_cases long : 0 < route.cidr.prefixLen
  · rw [if_pos long]
    simp only [readOctets_octets, Option.bind_eq_bind, Option.bind_some, whole, Except.toOption]
  · rw [addr_of_prefixLen_zero long] at whole
    rw [if_neg long]
    simp only [Option.bind_eq_bind, Option.bind_some, whole, Except.toOption]

theorem readTarget_unreachable (scope : UInt8) (flags ifindex : Nat) (gw : Ipv4Addr) :
    readTarget order rtnUnreachable scope flags (routePairs order (.unreachable cidr) ifindex gw) =
      some .unreachable := by
  rw [readTarget, if_pos rfl, lookup_unreachable order ifindex gw cidr (by decide),
    lookup_unreachable order ifindex gw cidr (by decide)]
  rfl

theorem readTarget_via {ifindex : Nat} (small : ifindex < 256 ^ 4) (gw : Ipv4Addr) :
    readTarget order rtnUnicast rtScopeUniverse rtnhFOnlink (routePairs order (.viaGateway cidr) ifindex gw) =
      some (.via gw ifindex) := by
  have index := order.read_bytes_of_lt small []
  rw [List.append_nil] at index
  rw [readTarget, if_neg (by decide), if_pos (by decide), lookup_gateway_via, lookup_oif_via]
  simp only [Option.bind_some, readOctets_octets, index, Option.bind_eq_bind]
  rfl

theorem readRouteBody_rtmsg (kind scope : UInt8) {flags : Nat} (small : flags < 256 ^ 4) (attrs : List Attribute) :
    readRouteBody order (rtmsg order cidr kind scope flags ++ attrs.flatMap (Attribute.bytes order)) =
      (readDestination (UInt8.ofNat cidr.prefixLen) (attrs.map fun attr => (attr.kind, attr.data))).bind fun found =>
        (readTarget order kind scope flags (attrs.map fun attr => (attr.kind, attr.data))).map (found, ·) := by
  have rest := Attribute.readAll_flatMap order attrs (Attribute.length_flatMap_le order attrs)
  have fixed := order.read_bytes_of_lt small (attrs.flatMap (Attribute.bytes order))
  simp only [rtmsg, List.cons_append, List.nil_append, readRouteBody, fixed, rest, Option.bind_eq_bind,
    Option.bind_some, and_self, if_true, Option.map_eq_bind]
  rfl

theorem readRouteBody_routeBody {ifindex : Nat} (small : ifindex < 256 ^ 4) (gw : Ipv4Addr) :
    readRouteBody order (routeBody order route ifindex gw) = some (route.cidr, route.target ifindex gw) := by
  have destination := readDestination_routePairs order route ifindex gw
  rw [routeBody_eq]
  cases route with
  | unreachable cidr =>
    rw [routeHead, readRouteBody_rtmsg order cidr _ _ (by decide)]
    rw [routePairs] at destination
    have target := readTarget_unreachable order cidr rtScopeNowhere 0 ifindex gw
    rw [routePairs] at target
    rw [target]
    exact congrArg (Option.bind · _) destination
  | viaGateway cidr =>
    rw [routeHead, readRouteBody_rtmsg order cidr _ _ (by decide)]
    have target := readTarget_via order cidr small gw
    rw [routePairs] at target destination
    rw [target]
    exact congrArg (Option.bind · _) destination

theorem length_routeBody_lt : (routeBody order route ifindex gw).length < 40 := by
  have size : ∀ attr : Attribute, attr.data.length = 4 → (attr.bytes order).length = 8 := by
    intro attr word
    simp [Attribute.bytes, Attribute.padding, word]
  rw [routeBody_eq, List.length_append]
  cases route with
  | unreachable cidr =>
    by_cases long : 0 < cidr.prefixLen
    · simp [routeHead, rtmsg, routeAttrs, Route.cidr, long, size _ (rfl : (dstAttr cidr).data.length = 4)]
    · simp [routeHead, rtmsg, routeAttrs, Route.cidr, long]
  | viaGateway cidr =>
    have tail : ((gatewayAttr gw).bytes order).length = 8 ∧ ((oifAttr order ifindex).bytes order).length = 8 :=
      ⟨size _ rfl, size _ (order.length_bytes 4 ifindex)⟩
    by_cases long : 0 < cidr.prefixLen
    · simp [routeHead, rtmsg, routeAttrs, Route.cidr, long, size _ (rfl : (dstAttr cidr).data.length = 4), tail]
    · simp [routeHead, rtmsg, routeAttrs, Route.cidr, long, tail]

theorem length_routeMessage (seq : Nat) :
    (routeMessage order route ifindex gw seq).length = nlmsgHdrLen + (routeBody order route ifindex gw).length := by
  simp only [routeMessage, List.length_append, ByteOrder.length_bytes, nlmsgHdrLen]

theorem readRouteRequest_routeMessage {ifindex : Nat} (index : ifindex < 256 ^ 4) (gw : Ipv4Addr) (seq : Nat) :
    readRouteRequest order (routeMessage order route ifindex gw seq) =
      some ⟨true, true, true, seq % 256 ^ 4, route.cidr, route.target ifindex gw⟩ := by
  have size := length_routeMessage order route ifindex gw seq
  have short := length_routeBody_lt order route ifindex gw
  have lengthFits : nlmsgHdrLen + (routeBody order route ifindex gw).length < 256 ^ 4 := by
    rw [nlmsgHdrLen]
    omega
  have body := readRouteBody_routeBody order route index gw
  rw [readRouteRequest, size]
  simp only [routeMessage, List.append_assoc, order.read_bytes, Nat.mod_eq_of_lt lengthFits, body,
    Option.bind_eq_bind, Option.bind_some]
  rfl

theorem toI32_neg {errno : Nat} (small : errno < 4096) : toI32 ((2 ^ 32 - errno) % 2 ^ 32) = -(errno : Int) := by
  rw [toI32]
  split
  · omega
  · omega

theorem parseAck_answer (port : Nat) {errno : Nat} (small : errno < 4096) {message : List UInt8}
    (long : nlmsgHdrLen ≤ message.length) :
    parseAck order (SandboxNet.answer order port errno message) = if errno = 0 then .ok () else .error (.os errno) := by
  have quoted : ((message.drop 8).take 4).length = 4 := by
    rw [nlmsgHdrLen] at long
    rw [List.length_take, List.length_drop]
    omega
  have size : 20 ≤ (SandboxNet.answer order port errno message).length := by
    simp only [SandboxNet.answer, List.length_append, ByteOrder.length_bytes, quoted]
    omega
  have kind : ((SandboxNet.answer order port errno message).drop 4).take 2 = order.bytes 2 nlmsgError := by
    simp only [SandboxNet.answer, List.append_assoc]
    rw [List.drop_left' (order.length_bytes 4 36), List.take_left' (order.length_bytes 2 nlmsgError)]
  have front : (order.bytes 4 36 ++ order.bytes 2 nlmsgError ++ order.bytes 2 0 ++ (message.drop 8).take 4 ++
      order.bytes 4 port).length = 16 := by
    simp only [List.length_append, ByteOrder.length_bytes, quoted]
  have result : ((SandboxNet.answer order port errno message).drop 16).take 4 =
      order.bytes 4 ((2 ^ 32 - errno) % 2 ^ 32) := by
    rw [SandboxNet.answer, List.append_assoc _ (order.bytes 4 ((2 ^ 32 - errno) % 2 ^ 32)), List.drop_left' front,
      List.take_left' (order.length_bytes 4 _)]
  have fits : (2 ^ 32 - errno) % 2 ^ 32 < 256 ^ 4 := Nat.mod_lt _ (by decide)
  have errorKind : nlmsgError % 256 ^ 2 = nlmsgError := rfl
  rw [parseAck, if_neg (by omega), kind, order.number_bytes, errorKind, if_neg (not_not_intro rfl),
    if_neg (by omega), result, order.number_bytes, Nat.mod_eq_of_lt fits, toI32_neg small]
  by_cases zero : errno = 0
  · subst zero
    rfl
  · rw [if_neg zero]
    have nonzero : ¬-(errno : Int) = 0 := by omega
    simp only [nonzero, if_false, Int.neg_neg]

end RoundTrip

section Exchange

variable (order : ByteOrder)

/-- The table with one more route of the plan. -/
def SandboxNet.withRoute (net : SandboxNet) (route : Route) : SandboxNet :=
  { net with routes := net.routes.replace route.entry.1 route.entry.2 }

theorem SandboxNet.perform_target (net : SandboxNet) (route : Route) {ifindex : Nat} (up : net.link = some ifindex)
    (gw : Ipv4Addr) (seq : Nat) :
    net.perform ⟨true, true, true, seq, route.cidr, route.target ifindex gw⟩ = (0, net.withRoute route) := by
  have device : net.hasDevice (route.target ifindex gw) = true := by
    cases route with
    | unreachable cidr => rfl
    | viaGateway cidr => simp [Route.target, hasDevice, up]
  rw [withRoute, Route.entry_eq route ifindex gw]
  simp [perform, device]

namespace Netlink

variable {order} {route : Route} {ifindex : Nat} {netlink : Netlink} {net : SandboxNet} (gw : Ipv4Addr)

theorem receive_routeMessage (index : ifindex < 256 ^ 4) (seq : Nat) (up : net.link = some ifindex)
    (refusal : Option Errno) :
    net.receive order refusal (routeMessage order route ifindex gw seq) =
      match refusal with
      | some errno => (errno.val, net)
      | none => (0, net.withRoute route) := by
  have request := readRouteRequest_routeMessage order route index gw seq
  cases refusal with
  | some errno => simp only [SandboxNet.receive, request]
  | none => simp only [SandboxNet.receive, request, SandboxNet.perform_target net route up gw _]

/-- One exchange over an idle socket. It leaves the socket idle unless the answer could not
be received, and then the route is in the table all the same. -/
theorem replace_cases (index : ifindex < 256 ^ 4) (up : net.link = some ifindex) (idle : netlink.replies = [])
    (fault : Option NetlinkFault) :
    (fault = none ∧ netlink.replace order fault route ifindex gw net =
        (.ok (), { netlink with seq := netlink.seq + 1 }, net.withRoute route)) ∨
      (fault ≠ none ∧ ∃ error after, netlink.replace order fault route ifindex gw net = (.error error, after) ∧
        after.1.seq = netlink.seq + 1 ∧
        (after.2 = net ∨ ((∃ errno, fault = some (.recv errno)) ∧ after.2 = net.withRoute route))) := by
  have long : nlmsgHdrLen ≤ (routeMessage order route ifindex gw (netlink.seq + 1)).length := by
    rw [length_routeMessage]
    omega
  have received := fun refusal => @receive_routeMessage order route ifindex net gw index (netlink.seq + 1) up refusal
  have parsed := fun (errno : Nat) (small : errno < 4096) => parseAck_answer order netlink.port small long
  match fault with
  | none =>
    refine Or.inl ⟨rfl, ?_⟩
    simp only [replace, NetlinkFault.refusal, received, recvAck, idle, List.nil_append, parsed 0 (by decide), if_true]
  | some (.send errno) => exact Or.inr ⟨Option.some_ne_none _, _, _, rfl, rfl, Or.inl rfl⟩
  | some (.refused errno) =>
    have nonzero : errno.val ≠ 0 := Nat.ne_of_gt errno.property.1
    refine Or.inr ⟨Option.some_ne_none _, .os errno.val, ({ netlink with seq := netlink.seq + 1 }, net), ?_, rfl,
      Or.inl rfl⟩
    simp only [replace, NetlinkFault.refusal, received, recvAck, idle, List.nil_append,
      parsed errno.val errno.property.2, if_neg nonzero]
  | some (.recv errno) =>
    refine Or.inr ⟨Option.some_ne_none _, .os errno.val, ?_⟩
    simp only [replace, NetlinkFault.refusal, received, recvAck]
    exact ⟨_, rfl, rfl, Or.inr ⟨⟨errno, rfl⟩, rfl⟩⟩

end Netlink

/-- What the first routes of a plan make of the table. -/
def SandboxNet.withRoutes (net : SandboxNet) (routes : List Route) : SandboxNet :=
  { net with routes := net.routes.install (routes.map Route.entry) }

theorem SandboxNet.withRoutes_snoc (net : SandboxNet) (routes : List Route) (route : Route) :
    net.withRoutes (routes ++ [route]) = (net.withRoutes routes).withRoute route := by
  simp [withRoutes, withRoute]

theorem SandboxNet.withRoutes_cons (net : SandboxNet) (route : Route) (routes : List Route) :
    net.withRoutes (route :: routes) = (net.withRoute route).withRoutes routes := rfl

/-- The part of a plan that is acknowledged ends with the plan or before the first fault. -/
structure Acknowledged (faults : Nat → Option NetlinkFault) (seq : Nat) (plan acked rest : List Route) : Prop where
  whole : plan = acked ++ rest
  clean : ∀ place < acked.length, faults (seq + place) = none
  stopped : rest ≠ [] → faults (seq + acked.length) ≠ none

namespace Acknowledged

variable {faults : Nat → Option NetlinkFault} {seq : Nat} {plan acked rest : List Route} {route : Route}

theorem cons (clean : faults seq = none) (later : Acknowledged faults (seq + 1) plan acked rest) :
    Acknowledged faults seq (route :: plan) (route :: acked) rest where
  whole := by rw [later.whole, List.cons_append]
  clean := by
    intro place bound
    cases place with
    | zero => exact clean
    | succ place =>
      rw [List.length_cons] at bound
      have next := later.clean place (by omega)
      rwa [Nat.add_assoc, Nat.add_comm 1 place] at next
  stopped := by
    intro more
    have next := later.stopped more
    rwa [Nat.add_assoc, Nat.add_comm 1 acked.length] at next

theorem stop (faulty : faults seq ≠ none) : Acknowledged faults seq plan [] plan :=
  ⟨rfl, fun _ bound => absurd bound (Nat.not_lt_zero _), fun _ => faulty⟩

theorem rest_eq_nil_iff (part : Acknowledged faults seq plan acked rest) :
    rest = [] ↔ ∀ place < plan.length, faults (seq + place) = none := by
  constructor
  · intro all
    rw [part.whole, all, List.append_nil]
    exact part.clean
  · intro clean
    by_contra more
    have inside : acked.length < plan.length := by
      rw [part.whole, List.length_append]
      have := List.length_pos_iff.mpr more
      omega
    exact part.stopped more (clean acked.length inside)

end Acknowledged

namespace Netlink

variable {order}

/-- The helper is told of success exactly if the whole plan was acknowledged. What was
acknowledged is in the table then, and beyond it at most the one route whose answer got
lost. -/
theorem replaceAll_acknowledged (order : ByteOrder) (faults : Nat → Option NetlinkFault) {ifindex : Nat}
    (index : ifindex < 256 ^ 4) (gw : Ipv4Addr) (plan : List Route) {netlink : Netlink} {net : SandboxNet}
    (up : net.link = some ifindex) (idle : netlink.replies = []) :
    ∃ acked rest, Acknowledged faults netlink.seq plan acked rest ∧
      ((netlink.replaceAll order faults ifindex gw plan net).1 = .ok () ↔ rest = []) ∧
      (netlink.replaceAll order faults ifindex gw plan net).2.1.seq =
        netlink.seq + (acked ++ rest.take 1).length ∧
      ((netlink.replaceAll order faults ifindex gw plan net).2.2 = net.withRoutes acked ∨
        ((∃ errno, faults (netlink.seq + acked.length) = some (.recv errno)) ∧
          (netlink.replaceAll order faults ifindex gw plan net).2.2 = net.withRoutes (acked ++ rest.take 1))) := by
  induction plan generalizing netlink net with
  | nil =>
    refine ⟨[], [], ⟨rfl, fun _ bound => absurd bound (Nat.not_lt_zero _), fun more => absurd rfl more⟩, ?_, rfl,
      Or.inl rfl⟩
    exact iff_of_true rfl rfl
  | cons route plan ih =>
    rcases @replace_cases order route ifindex netlink net gw index up idle (faults netlink.seq) with
      ⟨clean, taken⟩ | ⟨faulty, error, after, taken, sent, left⟩
    · rw [replaceAll, taken]
      obtain ⟨acked, rest, part, success, sent, table⟩ :=
        @ih { netlink with seq := netlink.seq + 1 } (net.withRoute route) up idle
      refine ⟨route :: acked, rest, part.cons clean, success, ?_, ?_⟩
      · rw [List.cons_append, List.length_cons]
        dsimp only at sent ⊢
        omega
      · rw [SandboxNet.withRoutes_cons, List.cons_append, SandboxNet.withRoutes_cons, List.length_cons,
          Nat.add_comm acked.length 1, ← Nat.add_assoc]
        exact table
    · rw [replaceAll, taken]
      have failed : ¬(Except.error error : Except AckError Unit) = .ok () := by simp
      exact ⟨[], route :: plan, .stop faulty, iff_of_false failed (List.cons_ne_nil _ _), sent, left⟩

/-- Every message is read back as its route, in either byte order. Over the messages and
their answers the table becomes that of the plan, route after route: what was acknowledged is
in it, and nothing else but the last route that was sent, if it is its answer that got lost.
The helper is told of success exactly if nothing went wrong. -/
theorem replaceAll_exact (order : ByteOrder) (faults : Nat → Option NetlinkFault) {ifindex : Nat}
    (index : ifindex < 256 ^ 4) (gw : Ipv4Addr) (plan : List Route) {netlink : Netlink} {net : SandboxNet}
    (up : net.link = some ifindex) (idle : netlink.replies = []) :
    (∀ route ∈ plan, ∀ seq, readRouteRequest order (routeMessage order route ifindex gw seq) =
        some ⟨true, true, true, seq % 256 ^ 4, route.cidr, route.target ifindex gw⟩) ∧
      ((netlink.replaceAll order faults ifindex gw plan net).1 = .ok () ↔
        ∀ place < plan.length, faults (netlink.seq + place) = none) ∧
      ((netlink.replaceAll order faults ifindex gw plan net).1 = .ok () →
        (netlink.replaceAll order faults ifindex gw plan net).2.2 = net.withRoutes plan) ∧
      ∃ acked rest, Acknowledged faults netlink.seq plan acked rest ∧
        (netlink.replaceAll order faults ifindex gw plan net).2.1.seq =
          netlink.seq + (acked ++ rest.take 1).length ∧
        ((netlink.replaceAll order faults ifindex gw plan net).2.2 = net.withRoutes acked ∨
          ((∃ errno, faults (netlink.seq + acked.length) = some (.recv errno)) ∧
            (netlink.replaceAll order faults ifindex gw plan net).2.2 = net.withRoutes (acked ++ rest.take 1))) := by
  obtain ⟨acked, rest, part, success, sent, table⟩ :=
    @replaceAll_acknowledged order faults ifindex index gw plan netlink net up idle
  refine ⟨fun route _ seq => readRouteRequest_routeMessage order route index gw seq,
    success.trans part.rest_eq_nil_iff, fun told => ?_, acked, rest, part, sent, table⟩
  have all := success.mp told
  have whole := part.whole
  subst all
  rw [List.append_nil] at whole
  subst whole
  rw [List.take_nil, List.append_nil] at table
  exact table.elim id And.right

/-- Two routes of a plan over a machine that writes the low byte first. -/
theorem denyThenDefault_installed :
    (replaceAll .little (fun _ => none) 7 gateway [.unreachable linkNet, .viaGateway everywhere] ⟨0, 1, []⟩
      ⟨pastaRoutes, some 7⟩).1 = .ok () :=
  (replaceAll_exact .little (fun _ => none) (by decide) gateway [.unreachable linkNet, .viaGateway everywhere]
    rfl rfl).2.1.mpr fun _ _ => rfl

end Netlink

end Exchange

end EkaCI
