import EkaCI.Channels.Evaluator
import Mathlib.Data.List.Pairwise

/-! The channel registry: what the start-up validation accepts, and which channels
a push is routed to. The validation compares owners as they are spelled, the
routing ignores ASCII case. -/

namespace EkaCI

def eqIgnoreAsciiCase (first second : String) : Bool :=
  first.toList.map Char.toLower = second.toList.map Char.toLower

theorem eqIgnoreAsciiCase_iff {first second : String} :
    eqIgnoreAsciiCase first second = true ↔ first.toList.map Char.toLower = second.toList.map Char.toLower :=
  decide_eq_true_iff

theorem eqIgnoreAsciiCase_refl (owner : String) : eqIgnoreAsciiCase owner owner = true :=
  eqIgnoreAsciiCase_iff.mpr rfl

theorem eqIgnoreAsciiCase_symm {first second : String} (same : eqIgnoreAsciiCase first second = true) :
    eqIgnoreAsciiCase second first = true :=
  eqIgnoreAsciiCase_iff.mpr (eqIgnoreAsciiCase_iff.mp same).symm

theorem eqIgnoreAsciiCase_trans {first second third : String} (same : eqIgnoreAsciiCase first second = true)
    (next : eqIgnoreAsciiCase second third = true) : eqIgnoreAsciiCase first third = true :=
  eqIgnoreAsciiCase_iff.mpr ((eqIgnoreAsciiCase_iff.mp same).trans (eqIgnoreAsciiCase_iff.mp next))

/-- Forge, owner, repository and branch. -/
abbrev BranchKey := ChannelForge × String × String × String

namespace ChannelConfig

def trackingKey (channel : ChannelConfig) : BranchKey :=
  (channel.forge, channel.owner, channel.repo, channel.trackingBranch)

def targetKey (channel : ChannelConfig) : BranchKey :=
  (channel.forge, channel.owner, channel.repo, channel.targetBranch)

/-- The first rule. Names without a slash keep the parts of a channel id apart. -/
def ValidName (channel : ChannelConfig) : Prop := channel.name ≠ "" ∧ '/' ∉ channel.name.toList

instance (channel : ChannelConfig) : Decidable channel.ValidName := inferInstanceAs (Decidable (_ ∧ _))

end ChannelConfig

/-- The texts name these values. -/
inductive ChannelError where
  | invalidName (key name owner repo : String)
  | selfPromotion (channelId trackingBranch : String)
  | sharedTarget (other channelId : String)
  | chainedRelease (channelId targetBranch : String)
  | duplicateId (channelId : String)

abbrev ChannelRegistry := List (String × ChannelConfig)

namespace ChannelRegistry

/-- The channels that watch a branch. -/
def matchPushChannels (channels : ChannelRegistry) (forge : ChannelForge) (owner repo branch : String) :
    List ChannelConfig :=
  (channels.map (·.2)).filter fun channel =>
    channel.forge = forge ∧ eqIgnoreAsciiCase channel.owner owner ∧ channel.repo = repo ∧
      channel.trackingBranch = branch

theorem mem_matchPushChannels {channels : ChannelRegistry} {forge : ChannelForge} {owner repo branch : String}
    {channel : ChannelConfig} :
    channel ∈ channels.matchPushChannels forge owner repo branch ↔
      channel ∈ channels.map (·.2) ∧ channel.forge = forge ∧ eqIgnoreAsciiCase channel.owner owner = true ∧
        channel.repo = repo ∧ channel.trackingBranch = branch := by
  rw [matchPushChannels, List.mem_filter, decide_eq_true_iff]

end ChannelRegistry

namespace ValidateChannels

/-- Per-channel sanity; gathers the index of tracked branches. -/
def firstPass : List (String × ChannelConfig) → Except ChannelError (List BranchKey)
  | [] => .ok []
  | (key, channel) :: rest =>
    if ¬ channel.ValidName then .error (.invalidName key channel.name channel.owner channel.repo)
    else if channel.trackingBranch = channel.targetBranch then
      .error (.selfPromotion channel.channelId channel.trackingBranch)
    else (firstPass rest).map (channel.trackingKey :: ·)

/-- What the second pass has registered. -/
structure Registration where
  channels : ChannelRegistry := []
  /-- The targets taken so far, with the channel that took them. -/
  seenTarget : List (BranchKey × String) := []

def register (allTracking : List BranchKey) (registration : Registration) (channel : ChannelConfig) :
    Except ChannelError Registration :=
  match registration.seenTarget.find? (·.1 = channel.targetKey) with
  | some other => .error (.sharedTarget other.2 channel.channelId)
  | none =>
    if channel.targetKey ∈ allTracking then .error (.chainedRelease channel.channelId channel.targetBranch)
    else if channel.channelId ∈ registration.channels.map (·.1) then .error (.duplicateId channel.channelId)
    else
      .ok {
        channels := registration.channels ++ [(channel.channelId, channel)]
        seenTarget := registration.seenTarget ++ [(channel.targetKey, channel.channelId)] }

def secondPass (allTracking : List BranchKey) :
    List (String × ChannelConfig) → Registration → Except ChannelError Registration
  | [], registration => .ok registration
  | (_, channel) :: rest, registration =>
    (register allTracking registration channel).bind (secondPass allTracking rest)

end ValidateChannels

open ValidateChannels in
/-- The two loops go over the raw map, each in the order that it happens to have. -/
def validateChannels (first second : List (String × ChannelConfig)) : Except ChannelError ChannelRegistry :=
  (firstPass first).bind fun allTracking =>
    (secondPass allTracking second {}).map (·.channels)

namespace ChannelConfig

/-- The same repository, if owners are compared by `sameOwner`. -/
def SameRepository (sameOwner : String → String → Prop) (first second : ChannelConfig) : Prop :=
  first.forge = second.forge ∧ sameOwner first.owner second.owner ∧ first.repo = second.repo

/-- The repository of a push, as pushes are routed. -/
abbrev SameRouted : ChannelConfig → ChannelConfig → Prop :=
  SameRepository fun first second => eqIgnoreAsciiCase first second = true

theorem SameRouted.symm {first second : ChannelConfig} (same : SameRouted first second) : SameRouted second first :=
  ⟨same.1.symm, eqIgnoreAsciiCase_symm same.2.1, same.2.2.symm⟩

end ChannelConfig

open ChannelConfig

/-- The documented rules, for a way to compare owners. -/
structure ChannelRules (sameOwner : String → String → Prop) (channels : List ChannelConfig) : Prop where
  names : ∀ channel ∈ channels, channel.ValidName
  notSelf : ∀ channel ∈ channels, channel.trackingBranch ≠ channel.targetBranch
  ids : channels.Pairwise fun first second => first.channelId ≠ second.channelId ∧
    ¬ (SameRepository sameOwner first second ∧ first.name = second.name)
  targets : channels.Pairwise fun first second =>
    ¬ (SameRepository sameOwner first second ∧ first.targetBranch = second.targetBranch)
  unchained : ∀ first ∈ channels, ∀ second ∈ channels,
    ¬ (SameRepository sameOwner first second ∧ first.targetBranch = second.trackingBranch)

namespace ChannelRules

theorem perm {sameOwner : String → String → Prop} (symm : ∀ {first second}, sameOwner first second → sameOwner second first)
    {channels other : List ChannelConfig} (same : channels.Perm other) (rules : ChannelRules sameOwner channels) :
    ChannelRules sameOwner other := by
  have turned : ∀ {first second : ChannelConfig}, SameRepository sameOwner first second →
      SameRepository sameOwner second first := fun same => ⟨same.1.symm, symm same.2.1, same.2.2.symm⟩
  constructor
  · intro channel member
    exact rules.names channel (same.mem_iff.mpr member)
  · intro channel member
    exact rules.notSelf channel (same.mem_iff.mpr member)
  · refine (same.pairwise_iff ?_).mp rules.ids
    intro first second apart
    exact ⟨apart.1.symm, fun both => apart.2 ⟨turned both.1, both.2.symm⟩⟩
  · refine (same.pairwise_iff ?_).mp rules.targets
    intro first second apart both
    exact apart ⟨turned both.1, both.2.symm⟩
  · intro first left second right
    exact rules.unchained first (same.mem_iff.mpr left) second (same.mem_iff.mpr right)

end ChannelRules

namespace ValidateChannels

variable {allTracking : List BranchKey} {order : List (String × ChannelConfig)} {registration : Registration}

theorem firstPass_ok :
    firstPass order = .ok allTracking ↔
      (∀ entry ∈ order, entry.2.ValidName ∧ entry.2.trackingBranch ≠ entry.2.targetBranch) ∧
        allTracking = order.map (·.2.trackingKey) := by
  induction order generalizing allTracking with
  | nil =>
    simp only [firstPass, Except.ok.injEq, List.not_mem_nil, false_implies, implies_true, List.map_nil, true_and]
    exact eq_comm
  | cons entry rest ih =>
    obtain ⟨key, channel⟩ := entry
    unfold firstPass
    by_cases valid : channel.ValidName
    · by_cases self : channel.trackingBranch = channel.targetBranch
      · simp [valid, self]
      · rw [if_neg (not_not_intro valid), if_neg self]
        constructor
        · intro passed
          obtain ⟨tracked, found, rfl⟩ : ∃ tracked, firstPass rest = .ok tracked ∧
              channel.trackingKey :: tracked = allTracking := by
            cases scanned : firstPass rest with
            | error error => rw [scanned] at passed; cases passed
            | ok tracked => rw [scanned] at passed; cases passed; exact ⟨tracked, rfl, rfl⟩
          obtain ⟨sane, rfl⟩ := ih.mp found
          exact ⟨List.forall_mem_cons.mpr ⟨⟨valid, self⟩, sane⟩, rfl⟩
        · rintro ⟨sane, rfl⟩
          rw [ih.mpr ⟨(List.forall_mem_cons.mp sane).2, rfl⟩]
          rfl
    · simp [valid]

theorem register_ok {next : Registration} {channel : ChannelConfig} :
    register allTracking registration channel = .ok next ↔
      (channel.targetKey ∉ registration.seenTarget.map (·.1) ∧ channel.targetKey ∉ allTracking ∧
        channel.channelId ∉ registration.channels.map (·.1)) ∧
      next = {
        channels := registration.channels ++ [(channel.channelId, channel)]
        seenTarget := registration.seenTarget ++ [(channel.targetKey, channel.channelId)] } := by
  unfold register
  split
  · rename_i other found
    have taken : channel.targetKey ∈ registration.seenTarget.map (·.1) :=
      List.mem_map.mpr ⟨other, List.mem_of_find?_eq_some found, by simpa using List.find?_some found⟩
    simp [taken]
  · rename_i missing
    have free : channel.targetKey ∉ registration.seenTarget.map (·.1) := by
      intro taken
      obtain ⟨other, member, same⟩ := List.mem_map.mp taken
      simpa [same] using List.find?_eq_none.mp missing other member
    by_cases tracked : channel.targetKey ∈ allTracking
    · simp [tracked]
    · by_cases known : channel.channelId ∈ registration.channels.map (·.1)
      · rw [if_neg tracked, if_pos known]
        simp [known]
      · rw [if_neg tracked, if_neg known, Except.ok.injEq]
        exact ⟨fun same => ⟨⟨free, tracked, known⟩, same.symm⟩, fun both => both.2.symm⟩

/-- The second pass accepts channels that differ from each other and from those
already registered. -/
theorem secondPass_ok {final : Registration} :
    secondPass allTracking order registration = .ok final ↔
      (∀ entry ∈ order, entry.2.targetKey ∉ registration.seenTarget.map (·.1) ∧ entry.2.targetKey ∉ allTracking ∧
        entry.2.channelId ∉ registration.channels.map (·.1)) ∧
      order.Pairwise (fun first second => first.2.targetKey ≠ second.2.targetKey ∧
        first.2.channelId ≠ second.2.channelId) ∧
      final = {
        channels := registration.channels ++ order.map fun entry => (entry.2.channelId, entry.2)
        seenTarget := registration.seenTarget ++ order.map fun entry => (entry.2.targetKey, entry.2.channelId) } := by
  induction order generalizing registration with
  | nil =>
    simp only [secondPass, Except.ok.injEq, List.not_mem_nil, false_implies, implies_true, List.Pairwise.nil,
      List.map_nil, List.append_nil, true_and]
    exact eq_comm
  | cons entry rest ih =>
    obtain ⟨key, channel⟩ := entry
    constructor
    · intro passed
      simp only [secondPass] at passed
      cases registered : register allTracking registration channel with
      | error error => rw [registered] at passed; cases passed
      | ok next =>
        rw [registered] at passed
        obtain ⟨free, rfl⟩ := register_ok.mp registered
        obtain ⟨later, apart, rfl⟩ := ih.mp passed
        simp only [List.map_append, List.map_cons, List.map_nil, List.mem_append, List.mem_singleton, not_or] at later
        refine ⟨List.forall_mem_cons.mpr ⟨free, ?_⟩, List.pairwise_cons.mpr ⟨?_, apart⟩, by simp⟩
        · intro other member
          exact ⟨(later other member).1.1, (later other member).2.1, (later other member).2.2.1⟩
        · intro other member
          exact ⟨Ne.symm (later other member).1.2, Ne.symm (later other member).2.2.2⟩
    · rintro ⟨free, apart, rfl⟩
      obtain ⟨own, later⟩ := List.forall_mem_cons.mp free
      obtain ⟨differ, rest⟩ := List.pairwise_cons.mp apart
      simp only [secondPass]
      rw [register_ok.mpr ⟨own, rfl⟩]
      refine ih.mpr ⟨?_, rest, by simp⟩
      intro other member
      simp only [List.map_append, List.map_cons, List.map_nil, List.mem_append, List.mem_singleton, not_or]
      exact ⟨⟨(later other member).1, (differ other member).1.symm⟩, (later other member).2.1,
        (later other member).2.2, (differ other member).2.symm⟩

end ValidateChannels

/-- The raw map: channels under distinct keys. -/
structure ChannelMap where
  entries : List (String × ChannelConfig)
  distinct : (entries.map (·.1)).Nodup

namespace ChannelMap

/-- An iteration visits every entry once, in some order. -/
abbrev Iterates (raw : ChannelMap) (order : List (String × ChannelConfig)) : Prop := order.Perm raw.entries

def channels (raw : ChannelMap) : List ChannelConfig := raw.entries.map (·.2)

theorem Iterates.channels {raw : ChannelMap} {order : List (String × ChannelConfig)} (iterates : raw.Iterates order) :
    (order.map (·.2)).Perm raw.channels :=
  iterates.map _

end ChannelMap

variable {raw : ChannelMap} {first second : List (String × ChannelConfig)}

theorem targetKey_eq_iff {channel other : ChannelConfig} :
    channel.targetKey = other.targetKey ↔
      SameRepository (· = ·) channel other ∧ channel.targetBranch = other.targetBranch := by
  simp [targetKey, SameRepository, and_assoc]

theorem targetKey_eq_trackingKey_iff {channel other : ChannelConfig} :
    channel.targetKey = other.trackingKey ↔
      SameRepository (· = ·) channel other ∧ channel.targetBranch = other.trackingBranch := by
  simp [targetKey, trackingKey, SameRepository, and_assoc]

theorem channelId_congr {channel other : ChannelConfig} (same : SameRepository (· = ·) channel other)
    (named : channel.name = other.name) : channel.channelId = other.channelId := by
  rw [channelId, channelId, same.1, same.2.1, same.2.2, named]

/-- The validation enforces the rules with owners compared as they are spelled, and
registers every channel under its id. -/
theorem validateChannels_ok (one : raw.Iterates first) (two : raw.Iterates second) {registry : ChannelRegistry} :
    validateChannels first second = .ok registry ↔
      ChannelRules (· = ·) raw.channels ∧ registry = second.map fun entry => (entry.2.channelId, entry.2) := by
  have passes : validateChannels first second = .ok registry ↔
      ∃ allTracking, ValidateChannels.firstPass first = .ok allTracking ∧
        ∃ final, ValidateChannels.secondPass allTracking second {} = .ok final ∧ final.channels = registry := by
    unfold validateChannels
    cases ValidateChannels.firstPass first with
    | error error => simp [Except.bind]
    | ok allTracking =>
      simp only [Except.bind, Except.ok.injEq, exists_eq_left']
      cases ValidateChannels.secondPass allTracking second {} <;> simp [Except.map]
  rw [passes]
  constructor
  · rintro ⟨allTracking, scanned, final, registered, rfl⟩
    obtain ⟨sane, rfl⟩ := ValidateChannels.firstPass_ok.mp scanned
    obtain ⟨free, apart, rfl⟩ := ValidateChannels.secondPass_ok.mp registered
    refine ⟨ChannelRules.perm Eq.symm two.channels ?_, by simp⟩
    constructor
    · intro channel member
      obtain ⟨entry, listed, rfl⟩ := List.mem_map.mp member
      exact (sane entry (one.mem_iff.mpr (two.mem_iff.mp listed))).1
    · intro channel member
      obtain ⟨entry, listed, rfl⟩ := List.mem_map.mp member
      exact (sane entry (one.mem_iff.mpr (two.mem_iff.mp listed))).2
    · refine List.pairwise_map.mpr (apart.imp ?_)
      intro entry other differ
      exact ⟨differ.2, fun both => differ.2 (channelId_congr both.1 both.2)⟩
    · refine List.pairwise_map.mpr (apart.imp ?_)
      intro entry other differ both
      exact differ.1 (targetKey_eq_iff.mpr both)
    · intro channel left other right both
      obtain ⟨entry, listed, rfl⟩ := List.mem_map.mp left
      obtain ⟨tracked, present, rfl⟩ := List.mem_map.mp right
      refine (free entry listed).2.1 (List.mem_map.mpr ⟨tracked, one.mem_iff.mpr (two.mem_iff.mp present), ?_⟩)
      exact (targetKey_eq_trackingKey_iff.mpr both).symm
  · rintro ⟨rules, rfl⟩
    have ordered : ChannelRules (· = ·) (second.map (·.2)) := ChannelRules.perm Eq.symm two.channels.symm rules
    refine ⟨_, ValidateChannels.firstPass_ok.mpr ⟨?_, rfl⟩, _, ValidateChannels.secondPass_ok.mpr ⟨?_, ?_, rfl⟩, by simp⟩
    · intro entry member
      have listed : entry.2 ∈ raw.channels := List.mem_map.mpr ⟨entry, one.mem_iff.mp member, rfl⟩
      exact ⟨rules.names _ listed, rules.notSelf _ listed⟩
    · intro entry member
      refine ⟨List.not_mem_nil, ?_, List.not_mem_nil⟩
      intro tracked
      obtain ⟨other, present, same⟩ := List.mem_map.mp tracked
      exact rules.unchained entry.2 (List.mem_map.mpr ⟨entry, two.mem_iff.mp member, rfl⟩) other.2
        (List.mem_map.mpr ⟨other, one.mem_iff.mp present, rfl⟩) (targetKey_eq_trackingKey_iff.mp same.symm)
    · apply ((List.pairwise_map.mp ordered.targets).and (List.pairwise_map.mp ordered.ids)).imp
      intro entry other apart
      exact ⟨fun same => apart.1 (targetKey_eq_iff.mp same), apart.2.1⟩

/-- What an accepted registry promises: no branch has two channels that push to it,
no channel sees the push of a channel, and no two channels share an id. -/
structure ChannelRegistry.Apart (registry : ChannelRegistry) : Prop where
  pushes : registry.Pairwise fun one two => ¬ (SameRouted one.2 two.2 ∧ one.2.targetBranch = two.2.targetBranch)
  cascades : ∀ entry ∈ registry, ∀ owner, eqIgnoreAsciiCase entry.2.owner owner = true →
    registry.matchPushChannels entry.2.forge owner entry.2.repo entry.2.targetBranch = []
  ids : registry.Pairwise fun one two => one.2.channelId ≠ two.2.channelId

/-- The validation accepts exactly the maps that keep the rules with repositories
told apart as pushes are routed, and what it accepts keeps its promises. -/
def ChannelMap.WellValidated (raw : ChannelMap) : Prop :=
  ∀ first second, raw.Iterates first → raw.Iterates second →
    ((∃ registry, validateChannels first second = .ok registry) ↔
      ChannelRules (fun one two => eqIgnoreAsciiCase one two = true) raw.channels) ∧
    ∀ registry, validateChannels first second = .ok registry → registry.Apart

/-- Two spellings of one owner, and channels that one repository may not have together. -/
def ChannelConfig.Clash (one two : ChannelConfig) : Prop :=
  one.owner ≠ two.owner ∧ SameRouted one two ∧
    (one.name = two.name ∨ one.targetBranch = two.targetBranch ∨ one.targetBranch = two.trackingBranch)

namespace ChannelRules

theorem routed (rules : ChannelRules (· = ·) raw.channels)
    (spelled : ∀ one ∈ raw.channels, ∀ two ∈ raw.channels, ¬ one.Clash two) :
    ChannelRules (fun one two => eqIgnoreAsciiCase one two = true) raw.channels := by
  -- A pair in one repository either spells the owner alike or clashes.
  have alike : ∀ one ∈ raw.channels, ∀ two ∈ raw.channels, SameRouted one two →
      (one.name = two.name ∨ one.targetBranch = two.targetBranch ∨ one.targetBranch = two.trackingBranch) →
      SameRepository (· = ·) one two := by
    intro one left two right same together
    refine ⟨same.1, ?_, same.2.2⟩
    by_contra differ
    exact spelled one left two right ⟨differ, same, together⟩
  constructor
  · exact rules.names
  · exact rules.notSelf
  · apply rules.ids.imp_of_mem
    intro one two left right apart
    refine ⟨apart.1, fun both => apart.2 ⟨alike one left two right both.1 (.inl both.2), both.2⟩⟩
  · apply rules.targets.imp_of_mem
    intro one two left right apart both
    exact apart ⟨alike one left two right both.1 (.inr (.inl both.2)), both.2⟩
  · intro one left two right both
    exact rules.unchained one left two right ⟨alike one left two right both.1 (.inr (.inr both.2)), both.2⟩

theorem spelled (rules : ChannelRules (fun one two => eqIgnoreAsciiCase one two = true) raw.channels) :
    ChannelRules (· = ·) raw.channels := by
  have weaken : ∀ {one two : ChannelConfig}, SameRepository (· = ·) one two → SameRouted one two := by
    intro one two same
    exact ⟨same.1, same.2.1 ▸ eqIgnoreAsciiCase_refl _, same.2.2⟩
  constructor
  · exact rules.names
  · exact rules.notSelf
  · exact rules.ids.imp fun apart => ⟨apart.1, fun both => apart.2 ⟨weaken both.1, both.2⟩⟩
  · exact rules.targets.imp fun apart both => apart ⟨weaken both.1, both.2⟩
  · intro one left two right both
    exact rules.unchained one left two right ⟨weaken both.1, both.2⟩

theorem not_clash (rules : ChannelRules (fun one two => eqIgnoreAsciiCase one two = true) raw.channels)
    {one two : ChannelConfig} (left : one ∈ raw.channels) (right : two ∈ raw.channels) : ¬ one.Clash two := by
  intro clash
  obtain ⟨differ, same, together⟩ := clash
  have apart : one ≠ two := fun equal => differ (congrArg ChannelConfig.owner equal)
  rcases together with named | pushed | chained
  · have : Std.Symm fun one two : ChannelConfig => one.channelId ≠ two.channelId ∧
        ¬ (SameRouted one two ∧ one.name = two.name) :=
      ⟨fun _ _ both => ⟨both.1.symm, fun turned => both.2 ⟨turned.1.symm, turned.2.symm⟩⟩⟩
    exact (rules.ids.forall left right apart).2 ⟨same, named⟩
  · have : Std.Symm fun one two : ChannelConfig => ¬ (SameRouted one two ∧ one.targetBranch = two.targetBranch) :=
      ⟨fun _ _ both turned => both ⟨turned.1.symm, turned.2.symm⟩⟩
    exact rules.targets.forall left right apart ⟨same, pushed⟩
  · exact rules.unchained one left two right ⟨same, chained⟩

theorem apart (rules : ChannelRules (fun one two => eqIgnoreAsciiCase one two = true) raw.channels)
    (two : raw.Iterates second) :
    ChannelRegistry.Apart (second.map fun entry => (entry.2.channelId, entry.2)) := by
  have ordered := ChannelRules.perm eqIgnoreAsciiCase_symm two.channels.symm rules
  constructor
  · exact List.pairwise_map.mpr (List.pairwise_map.mp ordered.targets)
  · intro entry member owner spelling
    obtain ⟨own, listed, rfl⟩ := List.mem_map.mp member
    apply List.eq_nil_iff_forall_not_mem.mpr
    intro watcher routed
    obtain ⟨watching, forge, owners, repo, branch⟩ := ChannelRegistry.mem_matchPushChannels.mp routed
    obtain ⟨stored, present, rfl⟩ := List.mem_map.mp watching
    obtain ⟨other, found, rfl⟩ := List.mem_map.mp present
    refine ordered.unchained own.2 (List.mem_map.mpr ⟨own, listed, rfl⟩) other.2
      (List.mem_map.mpr ⟨other, found, rfl⟩) ⟨⟨forge.symm, ?_, repo.symm⟩, branch.symm⟩
    exact eqIgnoreAsciiCase_trans spelling (eqIgnoreAsciiCase_symm owners)
  · exact List.pairwise_map.mpr ((List.pairwise_map.mp ordered.ids).imp fun apart => apart.1)

end ChannelRules

/-- The validation does what routing needs unless the only conflicts in the map are
between channels that spell an owner differently. -/
theorem wellValidated_iff (raw : ChannelMap) :
    raw.WellValidated ↔
      (ChannelRules (· = ·) raw.channels → ∀ one ∈ raw.channels, ∀ two ∈ raw.channels, ¬ one.Clash two) := by
  constructor
  · intro valid rules one left two right
    obtain ⟨decides, -⟩ := valid raw.entries raw.entries (.refl _) (.refl _)
    have routed := decides.mp ⟨_, (validateChannels_ok (.refl _) (.refl _)).mpr ⟨rules, rfl⟩⟩
    exact routed.not_clash left right
  · intro spelled first second one two
    constructor
    · constructor
      · rintro ⟨registry, accepted⟩
        obtain ⟨rules, -⟩ := (validateChannels_ok one two).mp accepted
        exact rules.routed (spelled rules)
      · intro rules
        exact ⟨_, (validateChannels_ok one two).mpr ⟨rules.spelled, rfl⟩⟩
    · intro registry accepted
      obtain ⟨rules, rfl⟩ := (validateChannels_ok one two).mp accepted
      exact (rules.routed (spelled rules)).apart two

namespace ChannelMap

def releasing (owner name trackingBranch : String) : ChannelConfig where
  forge := .gitHub
  owner := owner
  repo := "packages"
  name := name
  trackingBranch := trackingBranch
  targetBranch := "release"
  required := []
  packages := []
  dryRun := false

/-- Two channels that push the same branch of one repository, under two spellings
of its owner. -/
def twoSpellings : ChannelMap where
  entries := [("stable", releasing "Acme" "stable" "main"), ("nightly", releasing "acme" "nightly" "develop")]
  distinct := by decide

end ChannelMap

theorem not_wellValidated_twoSpellings : ¬ ChannelMap.twoSpellings.WellValidated := by
  intro valid
  have accepted : validateChannels ChannelMap.twoSpellings.entries ChannelMap.twoSpellings.entries =
      .ok [("github/Acme/packages/stable", ChannelMap.releasing "Acme" "stable" "main"),
        ("github/acme/packages/nightly", ChannelMap.releasing "acme" "nightly" "develop")] := by rfl
  have apart := (valid _ _ (.refl _) (.refl _)).2 _ accepted
  have pair := (List.pairwise_cons.mp apart.pushes).1 _ (List.mem_singleton.mpr rfl)
  exact pair ⟨⟨rfl, by decide, rfl⟩, rfl⟩

end EkaCI
