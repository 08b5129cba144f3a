import EkaCI.Lib.Run
import EkaCI.Sandbox.Netlink

/-! How a filtered sandbox starts. Four processes wait for each other: the attach helper, the
sandbox, which is blocked until the helper writes to it or the pipe has no writer left, the
setup helper, which puts the routes into the network of the sandbox, and pasta, which makes
the device. Any of them can fail at any point, and the attach helper can be killed. -/

namespace EkaCI

open Lib

/-- What does not change while the sandbox starts. -/
structure AttachSetting where
  launch : Launch
  policy : NetworkPolicy
  hostAddrs : List Ipv4Addr
  order : ByteOrder
  /-- The index that the kernel gives to the device of pasta. -/
  device : UInt32
  port : Nat

namespace AttachSetting

def plan (setting : AttachSetting) : List Route := routePlan setting.policy setting.hostAddrs

/-- The arguments with which the setup helper is spawned. -/
def setupArgs (setting : AttachSetting) : Except NetError (List String) :=
  attachRun setting.launch (attachArgs setting.launch setting.plan)

end AttachSetting

/-- Where the attach helper is. From `droppingNetwork` on it is on its way out, and what it
holds is dropped in this order. A helper that was killed drops nothing: its files are closed,
and after that its children get the signal that they asked for. -/
inductive HelperPhase where
  | spawning
  | readingInfo
  | mapping
  | joining
  | routing
  | opening
  | waiting
  | droppingNetwork
  | droppingSandbox
  | droppingBlock
  | killed
  | gone
  deriving DecidableEq

/-- The sandbox reports its pid before its id maps are written. -/
inductive BwrapPhase where
  | absent
  | starting
  | informed
  | mapped
  | running
  | dead
  deriving DecidableEq

inductive SetupPhase where
  | absent
  | entering (args : List String)
  | awaitingDevice (routes : List Route)
  | routing (ifindex : Nat) (rest : List Route) (netlink : Netlink)
  | holding
  | dead

inductive PastaPhase where
  | absent
  | starting
  | attached
  | dead
  deriving DecidableEq

inductive SetupEvent where
  | joined
  | routed
  deriving DecidableEq

structure Attach where
  helper : HelperPhase
  bwrap : BwrapPhase
  /-- The sandbox has reported its pid. -/
  info : Bool
  setup : SetupPhase
  pasta : PastaPhase
  /-- Lines that the helper has not read yet. -/
  events : List SetupEvent
  /-- The byte that unblocks the sandbox has been written. -/
  byte : Bool
  /-- The pipe that blocks the sandbox has a writer. -/
  blockOpen : Bool
  net : SandboxNet

inductive AttachAction where
  | helper
  | helperFail
  /-- The supervisor kills the helper, at a timeout or because it was told to. -/
  | helperKill
  /-- The children of a killed helper are killed. -/
  | deathSignal
  | bwrap
  /-- The sandbox ends, by itself or before it has begun. -/
  | bwrapEnd
  | setup (fault : Option NetlinkFault)
  | setupFail
  | pasta
  | pastaEnd

/-- A network namespace has no routes at first. -/
def emptyNet : SandboxNet := ⟨⟨[], List.nodup_nil⟩, none⟩

/-- With the device go the routes through it. -/
def SandboxNet.withoutDevice (net : SandboxNet) : SandboxNet where
  routes := ⟨net.routes.entries.filter (·.2 = .unreachable),
    net.routes.nodup.sublist (List.filter_sublist.map Prod.fst)⟩
  link := none

/-- pasta adds the default route last; once it exists the device is ready. -/
def SandboxNet.ready (net : SandboxNet) : Option Nat :=
  if (everywhere, Hop.gateway) ∈ net.routes.entries then net.link else none

namespace Attach

def start : Attach := ⟨.spawning, .absent, false, .absent, .absent, [], false, true, emptyNet⟩

/-- The network that the helper holds: its two processes are killed, and with pasta goes the
device. -/
def dropNetwork (state : Attach) : Attach :=
  { state with
    setup := match state.setup with
      | .absent => .absent
      | _ => .dead
    pasta := if state.pasta = .absent then .absent else .dead
    net := state.net.withoutDevice }

def dropSandbox (state : Attach) : Attach :=
  { state with bwrap := if state.bwrap = .absent then .absent else .dead }

/-- The next step of the attach helper. Reading from a process that has ended is an error. -/
def stepHelper (setting : AttachSetting) (state : Attach) : Option Attach :=
  match state.helper with
  | .spawning =>
    match setting.setupArgs with
    | .ok _ => some { state with helper := .readingInfo, bwrap := .starting }
    | .error _ => some { state with helper := .gone, blockOpen := false }
  | .readingInfo =>
    if state.info = true then some { state with helper := .mapping }
    else if state.bwrap = .dead then some { state with helper := .droppingNetwork }
    else none
  | .mapping =>
    match state.bwrap, setting.setupArgs with
    | .mapped, .ok args => some { state with helper := .joining, setup := .entering args }
    | _, _ => none
  | .joining =>
    match state.events, state.setup with
    | .joined :: rest, _ => some { state with helper := .routing, pasta := .starting, events := rest }
    | .routed :: _, _ => some { state with helper := .droppingNetwork }
    | [], .dead => some { state with helper := .droppingNetwork }
    | [], _ => none
  | .routing =>
    match state.events, state.setup with
    | .routed :: rest, _ => some { state with helper := .opening, events := rest }
    | .joined :: _, _ => some { state with helper := .droppingNetwork }
    | [], .dead => some { state with helper := .droppingNetwork }
    | [], _ => none
  | .opening =>
    if state.bwrap = .dead then some { state with helper := .droppingNetwork, blockOpen := false }
    else some { state with helper := .waiting, byte := true, blockOpen := false }
  | .waiting => if state.bwrap = .dead then some { state with helper := .droppingNetwork } else none
  | .droppingNetwork => some { state.dropNetwork with helper := .droppingSandbox }
  | .droppingSandbox => some { state.dropSandbox with helper := .droppingBlock }
  | .droppingBlock => some { state with helper := .gone, blockOpen := false }
  | .killed | .gone => none

/-- A failure anywhere in the helper drops what it holds; the pipe is closed before that if
it is the write to it that fails. -/
def failHelper (state : Attach) : Option Attach :=
  match state.helper with
  | .droppingNetwork | .droppingSandbox | .droppingBlock | .killed | .gone => none
  | .opening => some { state with helper := .droppingNetwork, blockOpen := false }
  | _ => some { state with helper := .droppingNetwork }

/-- The kernel closes the files of a process before it tells its children, so the sandbox may
read the end of the pipe while it and the others still live. -/
def killHelper (state : Attach) : Option Attach :=
  match state.helper with
  | .killed | .gone => none
  | _ => some { state with helper := .killed, blockOpen := false }

/-- Every child was spawned with `PR_SET_PDEATHSIG`. -/
def signalChildren (state : Attach) : Option Attach :=
  if state.helper = .killed then some { state.dropNetwork.dropSandbox with helper := .gone } else none

/-- The sandbox is blocked on a read, which ends at a byte and also at the end of the pipe. -/
def stepBwrap (state : Attach) : Option Attach :=
  match state.bwrap with
  | .starting => some { state with bwrap := .informed, info := true }
  | .informed => some { state with bwrap := .mapped }
  | .mapped => if state.byte = true ∨ state.blockOpen = false then some { state with bwrap := .running } else none
  | _ => none

/-- To a helper that was killed nothing can be reported. -/
def report (event : SetupEvent) (phase : SetupPhase) (state : Attach) : Attach :=
  if state.helper = .killed then { state with setup := .dead }
  else { state with setup := phase, events := state.events ++ [event] }

/-- The setup helper stays until its input ends, and nobody writes to it. -/
def stepSetup (setting : AttachSetting) (fault : Option NetlinkFault) (state : Attach) : Option Attach :=
  match state.setup with
  | .entering args =>
    match parseArgs args with
    | .ok parsed => some (state.report .joined (.awaitingDevice parsed.routes))
    | .error _ => some { state with setup := .dead }
  | .awaitingDevice routes =>
    state.net.ready.map fun ifindex => { state with setup := .routing ifindex routes ⟨0, setting.port, []⟩ }
  | .routing ifindex (route :: rest) netlink =>
    let (result, netlink, net) := netlink.replace setting.order fault route ifindex gateway state.net
    match result with
    | .ok () => some { state with setup := .routing ifindex rest netlink, net := net }
    | .error _ => some { state with setup := .dead, net := net }
  | .routing _ [] _ => some (state.report .routed .holding)
  | .holding => if state.helper = .killed then some { state with setup := .dead } else none
  | .absent | .dead => none

def step (setting : AttachSetting) (state : Attach) : AttachAction → Option Attach
  | .helper => state.stepHelper setting
  | .helperFail => state.failHelper
  | .helperKill => state.killHelper
  | .deathSignal => state.signalChildren
  | .bwrap => state.stepBwrap
  | .bwrapEnd => if state.bwrap = .absent ∨ state.bwrap = .dead then none else some { state with bwrap := .dead }
  | .setup fault => state.stepSetup setting fault
  | .setupFail =>
    match state.setup with
    | .absent | .dead => none
    | _ => some { state with setup := .dead }
  | .pasta =>
    if state.pasta = .starting then
      some { state with pasta := .attached, net := ⟨pastaRoutes, some setting.device.toNat⟩ }
    else none
  | .pastaEnd =>
    if state.pasta = .absent ∨ state.pasta = .dead then none
    else some { state with pasta := .dead, net := state.net.withoutDevice }

end Attach

/-- No route leads anywhere. -/
def SandboxNet.Quiet (net : SandboxNet) : Prop :=
  net.link = none ∧ ∀ entry ∈ net.routes.entries, entry.2 = .unreachable

namespace SandboxNet

theorem quiet_empty : emptyNet.Quiet := ⟨rfl, List.forall_mem_nil _⟩

theorem quiet_withoutDevice (net : SandboxNet) : net.withoutDevice.Quiet :=
  ⟨rfl, fun _ member => of_decide_eq_true (List.mem_filter.mp member).2⟩

theorem Quiet.ready {net : SandboxNet} (quiet : net.Quiet) : net.ready = none := by
  rw [SandboxNet.ready, quiet.1]
  exact ite_self none

theorem Quiet.perform {net : SandboxNet} (quiet : net.Quiet) (request : RouteRequest) : (net.perform request).2.Quiet := by
  by_cases device : net.hasDevice request.target = false
  · rw [SandboxNet.perform, if_pos device]
    exact quiet
  have nowhere : request.target = .unreachable := by
    cases target : request.target with
    | unreachable => rfl
    | via gw oif => simp [target, hasDevice, quiet.1] at device
  have changed : ({ net with routes := net.routes.replace request.cidr request.target.hop } : SandboxNet).Quiet := by
    refine ⟨quiet.1, fun entry member => ?_⟩
    obtain ⟨key, hop⟩ := entry
    rcases RouteTable.mem_replace.mp member with ⟨-, rfl⟩ | ⟨-, before⟩
    · rw [nowhere]
      rfl
    · exact quiet.2 _ before
  rw [SandboxNet.perform, if_neg device]
  by_cases listed : request.cidr ∈ net.routes.entries.map Prod.fst
  · rw [if_pos listed]
    cases request.replaces with
    | true => exact changed
    | false => exact quiet
  · rw [if_neg listed]
    cases request.creates with
    | true => exact changed
    | false => exact quiet

theorem Quiet.receive {net : SandboxNet} (quiet : net.Quiet) (order : ByteOrder) (refusal : Option Errno)
    (message : List UInt8) : (net.receive order refusal message).2.Quiet := by
  unfold SandboxNet.receive
  split
  · exact quiet
  · exact quiet
  · exact quiet.perform _

theorem Quiet.replace {net : SandboxNet} (quiet : net.Quiet) (order : ByteOrder) (fault : Option NetlinkFault)
    (route : Route) (ifindex : Nat) (netlink : Netlink) :
    (netlink.replace order fault route ifindex gateway net).2.2.Quiet := by
  match fault with
  | some (.send _) => exact quiet
  | some (.refused errno) => exact quiet.receive order (some errno) _
  | some (.recv _) => exact quiet.receive order none _
  | none => exact quiet.receive order none _

end SandboxNet

namespace AttachSetting

theorem setupArgs_eq (setting : AttachSetting) :
    setting.setupArgs =
      .ok (["--netns", setting.launch.netns, "--userns", setting.launch.userns] ++ routeArgs setting.plan) := by
  rw [setupArgs, attachRun, parseArgs_attachArgs]
  rfl

theorem routes_of_setupArgs {setting : AttachSetting} {args : List String} (given : setting.setupArgs = .ok args) :
    ∃ parsed, parseArgs args = .ok parsed ∧ parsed.routes = setting.plan := by
  rw [setupArgs_eq] at given
  cases given
  exact ⟨_, parseArgs_setupArgs setting.launch setting.plan, rfl⟩

/-- The network when pasta is done. -/
def attachedNet (setting : AttachSetting) : SandboxNet := ⟨pastaRoutes, some setting.device.toNat⟩

theorem ready_attachedNet (setting : AttachSetting) : setting.attachedNet.ready = some setting.device.toNat := by
  have listed : (everywhere, Hop.gateway) ∈ pastaRoutes.entries := List.mem_cons_of_mem _ List.mem_cons_self
  rw [SandboxNet.ready, attachedNet, if_pos listed]

end AttachSetting

end EkaCI
