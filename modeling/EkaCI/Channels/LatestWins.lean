import EkaCI.Channels.Exclusion
import EkaCI.Lib.Arrival

/-! The newest push of a channel wins. The commits that were opened, the pending one,
the one in the handler's hands and those in the queue form a line in the order of
their pushes, as long as a drained commit does not join the queue behind newer ones. -/

namespace EkaCI

open Lib

variable {DrvId : Type}

/-- The commits of a channel. -/
def shasOf (channelId : String) (keys : List (String × String)) : List String :=
  (keys.filter fun key => key.1 = channelId).map Prod.snd

variable (channelId : String)

theorem shasOf_append (first second : List (String × String)) :
    shasOf channelId (first ++ second) = shasOf channelId first ++ shasOf channelId second := by
  rw [shasOf, List.filter_append, List.map_append]
  rfl

theorem shasOf_nil : shasOf channelId [] = [] := rfl

theorem shasOf_singleton_self (sha : String) : shasOf channelId [(channelId, sha)] = [sha] := by
  simp [shasOf]

theorem shasOf_singleton_of_ne {channelId other : String} (differ : other ≠ channelId) (sha : String) :
    shasOf channelId [(other, sha)] = [] := by
  simp [shasOf, differ]

/-- The push that the handler has not put anywhere yet. -/
def HandlerPoint.carried : HandlerPoint → List (String × String)
  | .lookup channel sha | .coalesce channel sha | .start channel sha | .skip channel sha _ => [(channel.channelId, sha)]
  | _ => []

/-- The drained commit that waits for room in the queue. -/
def HandlerPoint.resent : HandlerPoint → List (String × String)
  | .resend channel drained _ _ => [(channel.channelId, drained)]
  | _ => []

namespace ChannelService

def carried (service : ChannelService DrvId) : List (String × String) :=
  match service.handler with
  | .running _ _ point => point.carried
  | _ => []

def resent (service : ChannelService DrvId) : List (String × String) :=
  match service.handler with
  | .running _ _ point => point.resent
  | _ => []

def queuedShas (service : ChannelService DrvId) (channelId : String) : List String :=
  shasOf channelId (service.queue.filterMap ChannelTask.key?)

/-- The commits for which an evaluation was opened, in this order. -/
def openedShas (service : ChannelService DrvId) (channelId : String) : List String :=
  (service.promotions.rows.filter fun row => row.channelId = channelId ∧ row.status ≠ .skipped).map
    ChannelPromotionRow.trackingSha

def pushedShas (service : ChannelService DrvId) (channelId : String) : List String := shasOf channelId service.pushed

/-- The line of a channel, with what the handler has in its hands. -/
def lineWith (service : ChannelService DrvId) (carried resent : List (String × String)) (channelId : String) : List String :=
  service.openedShas channelId ++ (service.pending channelId).toList ++ shasOf channelId carried ++
    service.queuedShas channelId ++ shasOf channelId resent

def line (service : ChannelService DrvId) (channelId : String) : List String :=
  service.lineWith service.carried service.resent channelId

/-- A commit is not pushed again once another one was, the process does not end, no
call fails while the handler carries a push, and a drained commit does not join
the queue behind another one of its channel. -/
def InTurn (service : ChannelService DrvId) : ChannelAction DrvId → Prop
  | .enqueue task =>
    ∀ key ∈ task.key?, key.2 ∉ service.pushedShas key.1 ∨ (service.pushedShas key.1).getLast? = some key.2
  | .crash => False
  | .advance answer =>
    match answer with
    | .fails => service.carried = []
    | .succeeds => ∀ key ∈ service.draining?, ∀ sha ∈ service.queuedShas key.1, sha = key.2
    | .refused => True
  | .conclude _ _ | .start _ | .next | .receive _ => True

/-- The evaluations of a channel were opened in the order of the pushes, and when
all is done the last one is that of the last push. -/
structure LatestWins (service : ChannelService DrvId) : Prop where
  ordered : ∀ channelId, (service.openedShas channelId).Pairwise fun first second =>
    (service.pushedShas channelId).idxOf first < (service.pushedShas channelId).idxOf second
  latest : ∀ channelId, service.handler = .idle → service.queue = [] →
    (∀ row ∈ service.promotions.rows, ¬ row.isInFlight channelId) →
    (service.openedShas channelId).getLast? = (service.pushedShas channelId).getLast?

section Decidable

variable (service : ChannelService DrvId)

instance : (action : ChannelAction DrvId) → Decidable (service.InTurn action)
  | .enqueue task =>
    inferInstanceAs (Decidable (∀ key ∈ task.key?,
      key.2 ∉ service.pushedShas key.1 ∨ (service.pushedShas key.1).getLast? = some key.2))
  | .crash => inferInstanceAs (Decidable False)
  | .advance .fails => inferInstanceAs (Decidable (service.carried = []))
  | .advance .succeeds =>
    inferInstanceAs (Decidable (∀ key ∈ service.draining?, ∀ sha ∈ service.queuedShas key.1, sha = key.2))
  | .advance .refused => inferInstanceAs (Decidable True)
  | .conclude _ _ | .start _ | .next | .receive _ => inferInstanceAs (Decidable True)

end Decidable

variable {service next : ChannelService DrvId} {hasOctocrab : Bool} {channels : List ChannelConfig}

theorem openedShas_of_append {row : ChannelPromotionRow} (channelId : String)
    (added : next.promotions.rows = service.promotions.rows ++ [row]) :
    next.openedShas channelId = service.openedShas channelId ++
      if row.channelId = channelId ∧ row.status ≠ .skipped then [row.trackingSha] else [] := by
  rw [openedShas, added, List.filter_append, List.map_append]
  congr 1
  split
  · rename_i shown
    rw [List.filter_cons_of_pos (by simpa using shown)]
    rfl
  · rename_i hidden
    rw [List.filter_cons_of_neg (by simpa using hidden)]
    rfl

theorem openedShas_finalise (channelId sha : String) (verdict : Verdict) (other : String) :
    ((service.promotions.finaliseEvaluation channelId sha verdict).rows.filter fun row =>
      row.channelId = other ∧ row.status ≠ .skipped).map ChannelPromotionRow.trackingSha = service.openedShas other := by
  have shown : ∀ row : ChannelPromotionRow, (Promotions.finaliseRow channelId sha verdict row).status = .skipped ↔
      row.status = .skipped := by
    intro row
    constructor
    · intro skipped
      rw [← Promotions.finaliseRow_of_status channelId sha rfl skipped]
      exact skipped
    · intro skipped
      rw [Promotions.finaliseRow, if_neg fun matched => by simp [skipped] at matched]
      exact skipped
  rw [Promotions.finaliseEvaluation, List.filter_map, List.map_map, openedShas]
  have same : ∀ row : ChannelPromotionRow,
      (ChannelPromotionRow.trackingSha ∘ Promotions.finaliseRow channelId sha verdict) row = row.trackingSha :=
    Promotions.finaliseRow_trackingSha channelId sha verdict
  have kept : ((fun row : ChannelPromotionRow => decide (row.channelId = other ∧ row.status ≠ .skipped)) ∘
      Promotions.finaliseRow channelId sha verdict) = fun row => decide (row.channelId = other ∧ row.status ≠ .skipped) := by
    funext row
    simp only [Function.comp_apply, Promotions.finaliseRow_channelId, ne_eq, shown]
  rw [kept, funext same]

variable {channelId sha : String} {arrived : List String} {task : ChannelTask} {channel : ChannelConfig}
  {verdict : Verdict} {point point' : HandlerPoint} {origin : TaskOrigin} {rest : List ChannelTask}

theorem mem_openedShas {row : ChannelPromotionRow} (member : row ∈ service.promotions.rows)
    (isFor : row.isFor channelId sha) (opened : row.status ≠ .skipped) : sha ∈ service.openedShas channelId := by
  rw [← isFor.2]
  exact List.mem_map_of_mem (List.mem_filter.mpr ⟨member, decide_eq_true ⟨isFor.1, opened⟩⟩)

theorem openedShas_distinct (settled : service.promotions.Settled) (channelId : String) :
    (service.openedShas channelId).Pairwise (· ≠ ·) := by
  refine List.pairwise_map.mpr (List.Pairwise.imp_of_mem ?_ (settled.filter _))
  intro first second member member' skipped same
  have shown := of_decide_eq_true (List.mem_filter.mp member).2
  have shown' := of_decide_eq_true (List.mem_filter.mp member').2
  exact shown.2 (skipped (shown.1.trans shown'.1.symm) same)

theorem lineWith_carrying (sha : String) (resent : List (String × String)) (channelId : String) :
    service.lineWith [(channelId, sha)] resent channelId =
      service.openedShas channelId ++ (service.pending channelId).toList ++
        sha :: (service.queuedShas channelId ++ shasOf channelId resent) := by
  rw [lineWith, shasOf_singleton_self, List.append_assoc _ (service.queuedShas channelId), List.append_assoc _ [sha],
    List.singleton_append]

theorem lineWith_nil (resent : List (String × String)) (channelId : String) :
    service.lineWith [] resent channelId =
      service.openedShas channelId ++ (service.pending channelId).toList ++
        (service.queuedShas channelId ++ shasOf channelId resent) := by
  rw [lineWith, ← List.append_assoc]
  congr 2
  exact List.append_nil _

theorem lined_uncarry {other : String} (lined : Lined arrived (service.lineWith [(other, sha)] [] channelId))
    (known : other = channelId → sha ∈ service.openedShas channelId ∨ service.pending channelId = some sha) :
    Lined arrived (service.lineWith [] [] channelId) := by
  by_cases same : other = channelId
  · subst same
    rw [lineWith_carrying] at lined
    rw [lineWith_nil]
    refine lined.leave (List.mem_append.mpr ((known rfl).imp_right fun waits => ?_))
    rw [waits]
    exact List.mem_cons_self
  · rw [lineWith, shasOf_singleton_of_ne same] at lined
    exact lined

theorem lineWith_congr {carried carried' resent resent' : List (String × String)}
    (opened : next.openedShas channelId = service.openedShas channelId)
    (pending : next.pending channelId = service.pending channelId)
    (hands : shasOf channelId carried' = shasOf channelId carried)
    (queued : next.queuedShas channelId = service.queuedShas channelId)
    (behind : shasOf channelId resent' = shasOf channelId resent) :
    next.lineWith carried' resent' channelId = service.lineWith carried resent channelId := by
  rw [lineWith, lineWith, opened, pending, hands, queued, behind]

theorem queuedShas_of_append (channelId : String) (added : next.queue = service.queue ++ [task]) :
    next.queuedShas channelId = service.queuedShas channelId ++ shasOf channelId task.key?.toList := by
  rw [queuedShas, added, List.filterMap_append, shasOf_append, queuedShas]
  rfl

theorem lineWith_defer (free : service.pending channel.channelId = none) (channelId : String) :
    ({ service with pending := service.setPending channel (some sha) } : ChannelService DrvId).lineWith [] [] channelId =
      service.lineWith [(channel.channelId, sha)] [] channelId := by
  by_cases same : channel.channelId = channelId
  · subst same
    rw [lineWith_carrying, lineWith_nil, free]
    dsimp only [setPending]
    rw [Function.update_self, Option.toList_none, List.append_nil, Option.toList_some, List.append_assoc,
      List.singleton_append]
    rfl
  · refine lineWith_congr rfl ?_ (shasOf_singleton_of_ne same sha).symm rfl rfl
    exact Function.update_of_ne (Ne.symm same) _ _

theorem lined_supersede {previous : String} (waits : service.pending channel.channelId = some previous)
    (lined : Lined arrived (service.lineWith [(channel.channelId, sha)] [] channelId)) :
    Lined arrived
      (({ service with
          promotions := service.promotions.insertSkipped channel.channelId previous channel.targetBranch
          pending := service.setPending channel (some sha) } : ChannelService DrvId).lineWith [] [] channelId) := by
  have opened := @openedShas_of_append _ service
    { service with
      promotions := service.promotions.insertSkipped channel.channelId previous channel.targetBranch
      pending := service.setPending channel (some sha) } _ channelId rfl
  rw [if_neg fun shown => shown.2 rfl, List.append_nil] at opened
  by_cases same : channel.channelId = channelId
  · subst same
    rw [lineWith_carrying, waits, Option.toList_some, List.append_assoc, List.singleton_append] at lined
    rw [lineWith_nil, opened]
    dsimp only [setPending]
    rw [Function.update_self, Option.toList_some, List.append_assoc, List.singleton_append]
    exact lined.overtake
  · refine @Eq.subst _ (Lined arrived) _ _ (Eq.symm ?_) lined
    refine lineWith_congr opened ?_ (shasOf_singleton_of_ne same sha).symm rfl rfl
    exact Function.update_of_ne (Ne.symm same) _ _

theorem lineWith_open {promotions : Promotions} (free : service.pending channel.channelId = none)
    (added : promotions.rows = service.promotions.rows ++
      [⟨channel.channelId, sha, channel.targetBranch, none, .evaluating, none, none⟩]) (channelId : String) :
    ({ service with promotions := promotions } : ChannelService DrvId).lineWith [] [] channelId =
      service.lineWith [(channel.channelId, sha)] [] channelId := by
  have opened := @openedShas_of_append _ service { service with promotions := promotions } _ channelId added
  by_cases same : channel.channelId = channelId
  · subst same
    rw [if_pos ⟨rfl, fun skipped => nomatch skipped⟩] at opened
    rw [lineWith_carrying, lineWith_nil, opened, free]
    rw [Option.toList_none, List.append_nil, List.append_nil, List.append_assoc, List.singleton_append]
    rfl
  · rw [if_neg fun shown => same shown.1, List.append_nil] at opened
    exact lineWith_congr opened rfl (shasOf_singleton_of_ne same sha).symm rfl rfl

/-- A drained commit stands behind the queue as well as ahead of it, if there is no
other one of its channel. -/
theorem lineWith_drain {drained : String} (waits : service.pending channel.channelId = some drained)
    (turn : ∀ sha ∈ service.queuedShas channel.channelId, sha = drained) (channelId : String) :
    ({ service with
        promotions := service.promotions.finaliseEvaluation channel.channelId sha verdict
        pending := service.setPending channel none } : ChannelService DrvId).lineWith [] [(channel.channelId, drained)]
          channelId = service.lineWith [] [] channelId := by
  have opened := @openedShas_finalise _ service channel.channelId sha verdict channelId
  by_cases same : channel.channelId = channelId
  · subst same
    rw [lineWith_nil, lineWith_nil, waits, shasOf_singleton_self]
    dsimp only [setPending]
    rw [Function.update_self, openedShas, opened, Option.toList_none, List.append_nil, Option.toList_some, List.append_assoc]
    congr 1
    exact (Lined.rotate turn).trans (congrArg _ (List.append_nil _).symm)
  · refine lineWith_congr opened ?_ rfl rfl (shasOf_singleton_of_ne same drained)
    exact Function.update_of_ne (Ne.symm same) _ _

theorem lineWith_resend (service : ChannelService DrvId) (channel : ChannelConfig) (drained channelId : String) :
    ({ service with queue := service.queue ++ [.evaluatePush channel drained] } : ChannelService DrvId).lineWith [] []
        channelId = service.lineWith [] [(channel.channelId, drained)] channelId := by
  have queued := @queuedShas_of_append _ service
    { service with queue := service.queue ++ [.evaluatePush channel drained] } _ channelId rfl
  rw [lineWith_nil, lineWith_nil, queued]
  congr 1
  exact List.append_nil _

theorem lineWith_conclude (none : service.pending channel.channelId = none) (channelId : String) :
    ({ service with
        promotions := service.promotions.finaliseEvaluation channel.channelId sha verdict
        pending := service.setPending channel Option.none } : ChannelService DrvId).lineWith [] [] channelId =
      service.lineWith [] [] channelId := by
  refine lineWith_congr (openedShas_finalise channel.channelId sha verdict channelId) ?_ rfl rfl rfl
  by_cases same : channel.channelId = channelId
  · subst same
    exact (Function.update_self _ _ _).trans none.symm
  · exact Function.update_of_ne (Ne.symm same) _ _

theorem Proceeds.lined (proceeds : Proceeds service point next point')
    (sound : Sound service.promotions service.pending) (fits : Fits service.promotions service.pending point)
    (turn : ∀ channel sha verdict rest drained, point = .finalise channel sha verdict rest →
      service.pending channel.channelId = some drained → ∀ sha ∈ service.queuedShas channel.channelId, sha = drained)
    (lined : Lined arrived (service.lineWith point.carried point.resent channelId)) :
    Lined arrived (next.lineWith point'.carried point'.resent channelId) := by
  cases proceeds with
  | @decided channel sha known =>
    refine lined_uncarry lined fun same => .inl ?_
    obtain ⟨row, member, isFor, decided⟩ := Promotions.exists_decided known
    refine mem_openedShas member (same ▸ isFor) fun skipped => ?_
    rw [skipped] at decided
    cases decided
  | undecided unknown => exact lined
  | @duplicate channel sha flying inFlight equal =>
    refine lined_uncarry lined fun same => equal.imp ?_ fun waits => same ▸ waits
    rintro rfl
    obtain ⟨row, member, isFor, evaluating⟩ := inFlightSha_eq_some.mp inFlight
    refine mem_openedShas member (same ▸ isFor) fun skipped => ?_
    rw [skipped] at evaluating
    cases evaluating
  | deferred inFlight other free => exact lineWith_defer free channelId ▸ lined
  | superseding inFlight other waits unlike => exact lined
  | fresh none => exact lined
  | skipped => exact lined_supersede fits.1 lined
  | opened inserted =>
    exact lineWith_open (sound.free fits.1) (Promotions.rows_of_insertEvaluating inserted) channelId ▸ lined
  | occupied refused =>
    obtain ⟨row, member, inFlight⟩ := Promotions.occupied_of_insertEvaluating refused
    exact absurd inFlight (fits.1 row member)
  | ready decision => exact lined
  | blocked decision => exact lined
  | waiting decision => exact lined
  | concluded none => exact lineWith_conclude none channelId ▸ lined
  | @drained channel sha drained verdict rest waits room =>
    have turn := turn channel sha verdict rest drained rfl waits
    exact (lineWith_resend _ channel drained channelId).trans (lineWith_drain waits turn channelId) ▸ lined
  | @stuck channel sha drained verdict rest waits full =>
    have turn := turn channel sha verdict rest drained rfl waits
    exact lineWith_drain waits turn channelId ▸ lined
  | resent room => exact lineWith_resend service _ _ channelId ▸ lined
  | revisited inFlight => exact lined
  | passed other => exact lined

/-- Nothing is replayed. -/
def Unreplayed (service : ChannelService DrvId) : Prop :=
  match service.handler with
  | .down => service.journal = []
  | .replaying rest => rest = []
  | .running (.replay _ _) _ _ => False
  | .idle | .running (.dispatch _) _ _ => True

/-- Every channel has its line, and a drained commit that cannot be sent waits
behind a full queue, so that nothing gets between. -/
structure InLine (service : ChannelService DrvId) : Prop where
  unreplayed : service.Unreplayed
  full : service.resent ≠ [] → channelTaskBuffer ≤ service.queue.length
  lined : ∀ channelId, Lined (service.pushedShas channelId) (service.line channelId)

theorem carried_of_running (running : service.handler = .running origin task point) :
    service.carried = point.carried := by
  rw [carried, running]

theorem resent_of_running (running : service.handler = .running origin task point) : service.resent = point.resent := by
  rw [resent, running]

theorem queuedShas_of_cons (channelId : String) (head : service.queue = task :: rest) :
    service.queuedShas channelId =
      shasOf channelId task.key?.toList ++ shasOf channelId (rest.filterMap ChannelTask.key?) := by
  rw [queuedShas, head, ← List.singleton_append, List.filterMap_append, shasOf_append]
  rfl

theorem filterMap_key_notices (notices : List JobsetNotice) :
    (notices.map ChannelTask.jobsetComplete).filterMap ChannelTask.key? = [] := by
  rw [List.filterMap_map, List.filterMap_eq_nil_iff]
  exact fun notice _ => rfl

theorem carried_enter (task : ChannelTask) : (enter channels task).carried = task.key?.toList := by
  cases task with
  | evaluatePush channel sha => rfl
  | jobsetComplete notice => rfl

theorem resent_enter (task : ChannelTask) : (enter channels task).resent = [] := by
  cases task with
  | evaluatePush channel sha => rfl
  | jobsetComplete notice => rfl

theorem InLine.enqueue (inLine : service.InLine) (room : service.queue.length < channelTaskBuffer)
    (turn : service.InTurn (.enqueue task)) :
    InLine { service with queue := service.queue ++ [task], pushed := service.pushed ++ task.key?.toList } where
  unreplayed := inLine.unreplayed
  full waits := absurd (inLine.full waits) (Nat.not_le.mpr room)
  lined channelId := by
    have nothing : service.resent = [] := by
      by_contra waits
      exact absurd (inLine.full waits) (Nat.not_le.mpr room)
    have queued := @queuedShas_of_append _ service
      { service with queue := service.queue ++ [task], pushed := service.pushed ++ task.key?.toList } _ channelId rfl
    have joined : line
        { service with queue := service.queue ++ [task], pushed := service.pushed ++ task.key?.toList } channelId =
        service.line channelId ++ shasOf channelId task.key?.toList := by
      change lineWith _ service.carried service.resent channelId = _
      rw [line, nothing, lineWith, lineWith, queued, shasOf_nil, List.append_nil, List.append_nil, ← List.append_assoc]
      rfl
    rw [joined, pushedShas, shasOf_append]
    cases key : task.key? with
    | none =>
      rw [Option.toList_none, shasOf_nil, List.append_nil, List.append_nil]
      exact inLine.lined channelId
    | some pair =>
      by_cases same : pair.1 = channelId
      · subst same
        rw [Option.toList_some, shasOf_singleton_self]
        exact (inLine.lined pair.1).arrive (turn pair key)
      · rw [Option.toList_some, shasOf_singleton_of_ne same, List.append_nil, List.append_nil]
        exact inLine.lined channelId

theorem InLine.receive {persisted : Bool} (inLine : service.InLine) (idle : service.handler = .idle)
    (head : service.queue = task :: rest) : (service.take channels task rest persisted).InLine := by
  have taken : ∀ {next : ChannelService DrvId}, next.promotions = service.promotions → next.pending = service.pending →
      next.queue = rest → next.pushed = service.pushed → ∀ id,
      next.handler = .running (.dispatch id) task (enter channels task) → next.InLine := by
    intro next promotions pending queue pushed id running
    refine ⟨?_, fun waits => ?_, fun channelId => ?_⟩
    · rw [Unreplayed, running]
      trivial
    · rw [resent_of_running running, resent_enter] at waits
      exact absurd rfl waits
    · have before := inLine.lined channelId
      have carried : service.carried = [] := by rw [carried, idle]
      have resent : service.resent = [] := by rw [resent, idle]
      rw [line, carried, resent, lineWith_nil, queuedShas_of_cons channelId head, openedShas] at before
      rw [line, carried_of_running running, resent_of_running running, carried_enter, resent_enter, lineWith, openedShas,
        queuedShas, pushedShas, promotions, pending, queue, pushed, List.append_assoc _ (shasOf _ task.key?.toList),
        List.append_assoc _ (_ ++ _)]
      exact before
  cases persisted with
  | true | false => exact taken rfl rfl rfl rfl _ rfl

theorem Proceeds.full (proceeds : Proceeds service point next point') (waits : point'.resent ≠ []) :
    channelTaskBuffer ≤ next.queue.length := by
  cases proceeds with
  | stuck _ full => exact full
  | _ => exact absurd rfl waits

theorem InLine.advance {answer : CallAnswer} (inLine : service.InLine) (consistent : service.Consistent)
    (running : service.handler = .running origin task point)
    (advances : Advances hasOctocrab service point answer next point') (turn : service.InTurn (.advance answer)) :
    InLine { next with handler := .running origin task point' } := by
  have unreplayed : Unreplayed { next with handler := .running origin task point' } := by
    have unreplayed := inLine.unreplayed
    rw [Unreplayed, running] at unreplayed
    cases origin with
    | replay id rest => exact unreplayed
    | dispatch id => trivial
  have lined := fun channelId => inLine.lined channelId
  simp only [line, carried_of_running running, resent_of_running running] at lined
  cases advances with
  | proceeds proceeds =>
    refine ⟨unreplayed, proceeds.full, fun channelId => ?_⟩
    have arrived : next.pushedShas channelId = service.pushedShas channelId := by
      rw [pushedShas, proceeds.framed.pushed]
      rfl
    refine arrived ▸ proceeds.lined consistent.sound (consistent.fitting.of_running running) ?_ (lined channelId)
    rintro channel sha verdict rest drained rfl waits
    apply turn (channel.channelId, drained)
    rw [draining?, running]
    exact congrArg (Option.map _) waits
  | failed calls =>
    have empty : point.carried = [] := (carried_of_running running).symm.trans turn
    have nothing : point.resent = [] := by
      cases point with
      | resend channel drained sha rest => cases calls
      | _ => rfl
    refine ⟨unreplayed, fun waits => absurd rfl waits, fun channelId => ?_⟩
    have before := lined channelId
    rw [empty, nothing] at before
    exact before
  | pushed ok => exact ⟨unreplayed, fun waits => absurd rfl waits, lined⟩
  | unpushed failed => exact ⟨unreplayed, fun waits => absurd rfl waits, lined⟩

theorem InLine.toRest (inLine : service.InLine) (carried : service.carried = []) (resent : service.resent = [])
    (promotions : next.promotions = service.promotions) (pending : next.pending = service.pending)
    (queue : next.queue = service.queue) (pushed : next.pushed = service.pushed) (unreplayed : next.Unreplayed)
    (carried' : next.carried = []) (resent' : next.resent = []) : next.InLine := by
  refine ⟨unreplayed, fun waits => absurd resent' waits, fun channelId => ?_⟩
  have lined := inLine.lined channelId
  rw [line, carried, resent, lineWith, openedShas, queuedShas, pushedShas] at lined
  rw [line, carried', resent', lineWith, openedShas, queuedShas, pushedShas, promotions, pending, queue, pushed]
  exact lined

theorem Steps.inLine {action : ChannelAction DrvId} (steps : Steps hasOctocrab channels service action next)
    (consistent : service.Consistent) (inLine : service.InLine) (turn : service.InTurn action) : next.InLine := by
  have unreplayed := inLine.unreplayed
  cases steps with
  | enqueued up room => exact inLine.enqueue room turn
  | @concluded jobs notices up =>
    refine ⟨inLine.unreplayed, fun waits => ?_, fun channelId => ?_⟩
    · exact (inLine.full waits).trans (List.length_append ▸ Nat.le_add_right _ _)
    · have queued : queuedShas { service with jobs := jobs, queue := service.queue ++ notices.map .jobsetComplete } channelId =
          service.queuedShas channelId := by
        rw [queuedShas, List.filterMap_append, filterMap_key_notices, List.append_nil]
        rfl
      have same : line { service with jobs := jobs, queue := service.queue ++ notices.map .jobsetComplete } channelId =
          service.line channelId := lineWith_congr rfl rfl rfl queued rfl
      exact same ▸ inLine.lined channelId
  | crashed up => exact turn.elim
  | started down =>
    rw [Unreplayed, down] at unreplayed
    exact inLine.toRest (by rw [carried, down]) (by rw [resent, down]) rfl rfl rfl rfl unreplayed rfl rfl
  | unrecovered down => exact inLine.toRest (by rw [carried, down]) (by rw [resent, down]) rfl rfl rfl rfl trivial rfl rfl
  | replayed done => exact inLine.toRest (by rw [carried, done]) (by rw [resent, done]) rfl rfl rfl rfl trivial rfl rfl
  | replays head =>
    rw [Unreplayed, head] at unreplayed
    cases unreplayed
  | received idle head => exact inLine.receive idle head
  | @finished origin task point answer running ended =>
    rw [Unreplayed, running] at unreplayed
    have nothing : point.carried = [] ∧ point.resent = [] := by
      cases point with
      | visit sha rest => exact ⟨rfl, rfl⟩
      | failed => exact ⟨rfl, rfl⟩
      | _ => cases ended
    have carried := (carried_of_running running).trans nothing.1
    have resent := (resent_of_running running).trans nothing.2
    cases origin with
    | replay id rest => exact unreplayed.elim
    | dispatch id => exact inLine.toRest carried resent rfl rfl rfl rfl trivial rfl rfl
  | advanced running advances => exact inLine.advance consistent running advances turn

/-- The newest push wins in every run where the pushes keep their turn. -/
theorem run_latestWins (hasOctocrab : Bool) (channels : List ChannelConfig) (jobs : JobDatabase DrvId)
    {actions : List (ChannelAction DrvId)} {final : ChannelService DrvId}
    (run : Run (step hasOctocrab channels) InTurn (start jobs) actions final) : final.LatestWins := by
  have kept : final.Consistent ∧ final.InLine := by
    refine run.invariant (p := fun service => service.Consistent ∧ service.InLine) ?_ ?_
    · exact ⟨consistent_start jobs, rfl, fun waits => absurd rfl waits, fun channelId => .nil⟩
    · intro service action next holds turn taken
      have steps := steps_of taken
      exact ⟨steps.consistent holds.1, steps.inLine holds.1 holds.2 turn⟩
  obtain ⟨⟨sound, -⟩, inLine⟩ := kept
  refine ⟨fun channelId => ?_, fun channelId idle empty none => ?_⟩
  · obtain ⟨members, ordered, -⟩ := inLine.lined channelId
    have opened : (final.openedShas channelId).Sublist (final.line channelId) :=
      ((List.sublist_append_left _ _).trans (List.sublist_append_left _ _)).trans
        ((List.sublist_append_left _ _).trans (List.sublist_append_left _ _))
    refine List.Pairwise.imp_of_mem ?_ ((ordered.sublist opened).and (openedShas_distinct sound.settled channelId))
    rintro first second member - ⟨notAfter, distinct⟩
    refine Nat.lt_of_le_of_ne notAfter fun same => distinct ?_
    exact (List.idxOf_inj (members first (opened.subset member))).mp same
  · have last := (inLine.lined channelId).last
    rw [line, carried, resent, idle, lineWith, queuedShas, empty, sound.free none] at last
    simpa [shasOf] using last

open JobDatabase (helloChannel)

/-- `hello` was built at every commit. -/
def allBuilt (shas : List String) : JobDatabase Nat where
  jobsets := shas.zipIdx.map fun (sha, index) => ⟨index, sha, "stable", "ekala", "corepkgs"⟩
  jobs := shas.zipIdx.map fun (_, index) => ⟨index, index, "hello", .new⟩
  buildState _ := .completed .success

/-- A commit is evaluated, another one waits for it, and more are pushed before the
jobset concludes. -/
def pushDuring (later : List String) : List (ChannelAction Nat) :=
  let pushes : List (ChannelAction Nat) := later.map fun sha => .enqueue (.evaluatePush helloChannel sha)
  [.start true, .next, .enqueue (.evaluatePush helloChannel "c0ffee")] ++ handleTask 5 ++
    .enqueue (.evaluatePush helloChannel "deadbeef") :: handleTask 3 ++
    .conclude (allBuilt ["c0ffee", "deadbeef", "facade"]) [⟨.gitHub, "ekala", "corepkgs", "c0ffee"⟩] :: pushes ++
    handleTask 5 ++ later.flatMap (fun _ => handleTask 7) ++ handleTask 7

theorem pushDuring_latestWins : ∃ final : ChannelService Nat,
    Run (step true [helloChannel]) InTurn (start (.empty fun _ => .queued)) (pushDuring []) final ∧
      final.openedShas helloChannel.channelId = ["c0ffee", "deadbeef"] ∧ final.LatestWins :=
  exists_run_and_of_checkRun (by decide +kernel) fun _ run => run_latestWins _ _ _ run

/-- The commit that has waited is sent again behind a newer one, and opened after it. -/
theorem pushDuring_not_latestWins : ¬ ∀ (hasOctocrab : Bool) (channels : List ChannelConfig) (jobs : JobDatabase Nat)
    (actions : List (ChannelAction Nat)) (final : ChannelService Nat),
    AnyRun (step hasOctocrab channels) (start jobs) actions final → final.LatestWins := by
  intro always
  obtain ⟨final, run, opened, pushed⟩ : ∃ final : ChannelService Nat,
      AnyRun (step true [helloChannel]) (start (.empty fun _ => .queued)) (pushDuring ["facade"]) final ∧
        final.openedShas helloChannel.channelId = ["c0ffee", "facade", "deadbeef"] ∧
          final.pushedShas helloChannel.channelId = ["c0ffee", "deadbeef", "facade"] :=
    exists_run_of_exec (by decide +kernel)
  have ordered := (always _ _ _ _ _ run).ordered helloChannel.channelId
  rw [opened, pushed] at ordered
  exact absurd ordered (by decide)

end ChannelService

end EkaCI
