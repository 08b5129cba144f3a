import EkaCI.Forge.MaintainerGrants
import EkaCI.Lib.Delegation
import Mathlib.Algebra.Ring.Int.Defs

/-! Who acts as an admin. A token says whether its user was an admin when he signed in, and
nobody asks the table again until it expires; the statements of a sign-in and of an
admin's request come in between those of others. -/

namespace EkaCI

open Lib

/-- A row of `AuthenticatedUsers`. -/
structure UserRow extends AuthenticatedUser where
  isAdmin : Bool

structure Claims where
  sub : String
  githubId : Nat
  username : String
  isAdmin : Bool
  exp : Nat
  iat : Nat

inductive AuthError where
  | missingToken
  | invalidToken
  | forbidden

/-- What the signature and the shape of a token say, whatever its age. -/
structure JwtService where
  decode : String → Option Claims

/-- Seven days. -/
def tokenLifetime : Nat := 7 * 24 * 60 * 60

/-- How long a token is still accepted after it has expired. -/
def leeway : Nat := 60

namespace JwtService

def createToken (now : Nat) (user : UserRow) : Claims :=
  ⟨toString user.githubId, user.githubId, user.githubUsername, user.isAdmin, now + tokenLifetime, now⟩

def validateToken (jwt : JwtService) (now : Nat) (token : String) : Option Claims :=
  (jwt.decode token).filter fun claims => now ≤ claims.exp + leeway

end JwtService

def bearer (authorization : Option String) : Except AuthError String :=
  match authorization with
  | none => .error .missingToken
  | some header =>
    match header.toList.dropPrefix? "Bearer ".toList with
    | none => .error .invalidToken
    | some token => .ok (String.ofList token)

def AuthUser.fromRequestParts (jwt : JwtService) (now : Nat) (authorization : Option String) :
    Except AuthError AuthUser := do
  let token ← bearer authorization
  match jwt.validateToken now token with
  | none => .error .invalidToken
  | some claims => .ok ⟨claims.githubId, claims.isAdmin⟩

def AdminUser.fromRequestParts (jwt : JwtService) (now : Nat) (authorization : Option String) :
    Except AuthError AdminUser := do
  let user ← AuthUser.fromRequestParts jwt now authorization
  if admin : user.isAdmin = true then .ok ⟨user, admin⟩ else .error .forbidden

/-- Where a sign-in is between its statements. -/
inductive Callback where
  /-- The row has been looked for. -/
  | selected (gitHubUser : AuthenticatedUser) (existing : Option UserRow)
  /-- A row has been inserted, and not been read yet. -/
  | inserted (githubId : Nat)
  /-- The token is what is left to do. -/
  | saved (user : UserRow)

inductive AdminOperation where
  | promoteUser (githubId : Nat)
  | demoteUser (githubId : Nat)
  | deleteUser (githubId : Nat)
  /-- Anything that leaves the users as they are. -/
  | other

structure AdminRequest where
  admin : AdminUser
  admitted : Nat
  operation : AdminOperation

/-- A request that has been carried out: whether it found a row, and was answered with success. -/
structure AdminAct extends AdminRequest where
  success : Bool

structure Sessions where
  now : Nat
  users : List UserRow
  callbacks : List Callback
  issued : List Claims
  /-- Let in, and not carried out yet. -/
  requests : List AdminRequest
  acts : List AdminAct

inductive SessionAction where
  | tick
  /-- The user comes back from GitHub. -/
  | callback (gitHubUser : AuthenticatedUser)
  | advance (place : Nat)
  | dropCallback (place : Nat)
  | request (authorization : Option String) (operation : AdminOperation)
  | perform (place : Nat)
  | dropRequest (place : Nat)

namespace Sessions

def start (users : List UserRow) : Sessions := ⟨0, users, [], [], [], []⟩

variable (state : Sessions)

def find (githubId : Nat) : Option UserRow := state.users.find? (·.githubId = githubId)

/-- Sets `is_admin` in the row of the user. -/
def setAdmin (githubId : Nat) (isAdmin : Bool) : Sessions :=
  { state with users := state.users.map fun row =>
      if row.githubId = githubId then { row with isAdmin := isAdmin } else row }

/-- The next statement of `upsert_user`, or the token. An update keeps what the row says
about admins, and what is returned is the row as it was found. -/
def advance (place : Nat) (callback : Callback) : Sessions :=
  match callback with
  | .selected gitHubUser (some row) =>
    { state with
      users := state.users.map fun stored =>
        if stored.githubId = gitHubUser.githubId then
          { stored with githubUsername := gitHubUser.githubUsername } else stored
      callbacks := state.callbacks.set place (.saved { row with githubUsername := gitHubUser.githubUsername }) }
  | .selected gitHubUser none =>
    if (state.find gitHubUser.githubId).isSome then { state with callbacks := state.callbacks.eraseIdx place }
    else
      { state with
        users := state.users ++ [⟨gitHubUser, false⟩]
        callbacks := state.callbacks.set place (.inserted gitHubUser.githubId) }
  | .inserted githubId =>
    match state.find githubId with
    | none => { state with callbacks := state.callbacks.eraseIdx place }
    | some row => { state with callbacks := state.callbacks.set place (.saved row) }
  | .saved user =>
    { state with
      issued := state.issued ++ [JwtService.createToken state.now user]
      callbacks := state.callbacks.eraseIdx place }

def carryOut : AdminOperation → Sessions
  | .promoteUser githubId => state.setAdmin githubId true
  | .demoteUser githubId => state.setAdmin githubId false
  | .deleteUser githubId => { state with users := state.users.filter (·.githubId ≠ githubId) }
  | .other => state

/-- Whether the statement affects a row; otherwise the answer is 404. -/
def affects : AdminOperation → Bool
  | .promoteUser githubId => (state.find githubId).isSome
  | .demoteUser githubId => (state.find githubId).isSome
  | .deleteUser githubId => (state.find githubId).isSome
  | .other => true

def step (jwt : JwtService) (state : Sessions) : SessionAction → Option Sessions
  | .tick => some { state with now := state.now + 1 }
  | .callback gitHubUser =>
    some { state with callbacks := state.callbacks ++ [.selected gitHubUser (state.find gitHubUser.githubId)] }
  | .advance place => state.callbacks[place]?.map (state.advance place)
  | .dropCallback place => some { state with callbacks := state.callbacks.eraseIdx place }
  | .request authorization operation =>
    match AdminUser.fromRequestParts jwt state.now authorization with
    | .ok admin => some { state with requests := state.requests ++ [⟨admin, state.now, operation⟩] }
    | .error _ => some state
  | .perform place => state.requests[place]?.map fun request =>
      { state.carryOut request.operation with
        requests := state.requests.eraseIdx place
        acts := state.acts ++ [⟨request, state.affects request.operation⟩] }
  | .dropRequest place => some { state with requests := state.requests.eraseIdx place }

end Sessions

/-- What an act gives: a promotion of a user whom there is not gives nothing. -/
def AdminAct.Promotes (act : AdminAct) (githubId : Nat) : Prop :=
  act.operation = .promoteUser githubId ∧ act.success = true

def AdminRequest.actor (request : AdminRequest) : Nat := request.admin.val.githubId

/-- The row as the token will have it, once that is settled. -/
def Callback.row : Callback → Option UserRow
  | .selected _ existing => existing
  | .inserted _ => none
  | .saved user => some user

/-- A token says that the user was an admin when he signed in, and has not expired. -/
def AdminRequest.BackedBy (request : AdminRequest) (issued : List Claims) : Prop :=
  ∃ claims ∈ issued, claims.githubId = request.actor ∧ claims.isAdmin = true ∧ claims.iat ≤ request.admitted ∧
    request.admitted ≤ claims.iat + tokenLifetime + leeway

theorem AdminRequest.BackedBy.mono {request : AdminRequest} {issued later : List Claims}
    (backed : request.BackedBy issued) (subset : issued ⊆ later) : request.BackedBy later := by
  obtain ⟨claims, listed, rest⟩ := backed
  exact ⟨claims, subset listed, rest⟩

/-- Nobody but the service signs tokens. -/
def Unforged (jwt : JwtService) (state : Sessions) (authorization : Option String) : Prop :=
  ∀ token claims, bearer authorization = .ok token → jwt.decode token = some claims → claims ∈ state.issued

theorem AdminUser.claims_of_fromRequestParts {jwt : JwtService} {state : Sessions} {authorization : Option String}
    (unforged : Unforged jwt state authorization) {admin : AdminUser}
    (admitted : AdminUser.fromRequestParts jwt state.now authorization = .ok admin) :
    ∃ claims ∈ state.issued, claims.githubId = admin.val.githubId ∧ claims.isAdmin = true ∧
      state.now ≤ claims.exp + leeway := by
  simp only [fromRequestParts, AuthUser.fromRequestParts, bind, Except.bind] at admitted
  split at admitted
  · cases admitted
  · rename_i user taken
    split at taken
    · cases taken
    · rename_i token found
      split at taken
      · cases taken
      · rename_i claims valid
        cases taken
        obtain ⟨decoded, fresh⟩ := Option.filter_eq_some_iff.mp valid
        split at admitted
        · rename_i isAdmin
          cases admitted
          exact ⟨claims, unforged token claims found decoded, rfl, isAdmin, of_decide_eq_true fresh⟩
        · cases admitted

namespace Sessions

/-- The sessions are used with tokens that the service has signed. -/
def Genuine (jwt : JwtService) (state : Sessions) (action : SessionAction) : Prop :=
  ∀ authorization operation, action = .request authorization operation → Unforged jwt state authorization

/-- The user was an admin at first, or an admin has promoted him. -/
abbrev MayAdminister (users : List UserRow) (acts : List AdminAct) (githubId : Nat) : Prop :=
  Entitled (fun root => ∃ row ∈ users, row.githubId = root ∧ row.isAdmin = true) (fun act => act.toAdminRequest.actor)
    AdminAct.Promotes acts githubId

/-- Wherever somebody appears as an admin he may be one. -/
structure Founded (users : List UserRow) (state : Sessions) : Prop where
  rows : ∀ row ∈ state.users, row.isAdmin = true → MayAdminister users state.acts row.githubId
  callbacks : ∀ callback ∈ state.callbacks, ∀ row, callback.row = some row → row.isAdmin = true →
    MayAdminister users state.acts row.githubId
  issued : ∀ claims ∈ state.issued, claims.isAdmin = true → MayAdminister users state.acts claims.githubId
  dated : ∀ claims ∈ state.issued, claims.exp = claims.iat + tokenLifetime ∧ claims.iat ≤ state.now
  requests : ∀ request ∈ state.requests, MayAdminister users state.acts request.actor ∧ request.BackedBy state.issued
  acts : ∀ before act after, state.acts = before ++ act :: after →
    MayAdminister users before act.actor ∧ act.BackedBy state.issued

variable {users : List UserRow} {state next : Sessions} {jwt : JwtService}

theorem founded_start (users : List UserRow) : Founded users (start users) where
  rows row member isAdmin := entitled_of_root ⟨row, member, rfl, isAdmin⟩
  callbacks := nofun
  issued := nofun
  dated := nofun
  requests := nofun
  acts before act after split := absurd split (by simp [start])

theorem mem_of_find {githubId : Nat} {row : UserRow} (found : state.find githubId = some row) : row ∈ state.users :=
  List.mem_of_find?_eq_some found

theorem Founded.setCallbacks (founded : Founded users state) {callbacks : List Callback}
    (known : ∀ callback ∈ callbacks, callback ∈ state.callbacks ∨
      ∀ row, callback.row = some row → row.isAdmin = true → MayAdminister users state.acts row.githubId) :
    Founded users { state with callbacks := callbacks } :=
  { founded with
    callbacks := fun callback member => (known callback member).elim (founded.callbacks callback) id }

theorem Founded.setUsers (founded : Founded users state) {rows : List UserRow}
    (known : ∀ row ∈ rows, row.isAdmin = true → MayAdminister users state.acts row.githubId) :
    Founded users { state with users := rows } :=
  { founded with rows := known }

theorem Founded.advance (founded : Founded users state) {place : Nat} {callback : Callback}
    (found : state.callbacks[place]? = some callback) : Founded users (state.advance place callback) := by
  have listed : callback ∈ state.callbacks := List.mem_of_getElem? found
  have known := founded.callbacks callback listed
  have replaced : ∀ {other : Callback}, (∀ row, other.row = some row → row.isAdmin = true →
      MayAdminister users state.acts row.githubId) →
      Founded users { state with callbacks := state.callbacks.set place other } := by
    intro other fine
    refine founded.setCallbacks fun entry member => ?_
    rcases List.mem_or_eq_of_mem_set member with before | rfl
    · exact Or.inl before
    · exact Or.inr fine
  have dropped : Founded users { state with callbacks := state.callbacks.eraseIdx place } :=
    founded.setCallbacks fun entry member => Or.inl (List.mem_of_mem_eraseIdx member)
  cases callback with
  | selected gitHubUser existing =>
    cases existing with
    | some row =>
      refine (replaced ?_).setUsers fun stored member isAdmin => ?_
      · intro saved same isAdmin
        cases same
        exact known row rfl isAdmin
      · obtain ⟨before, stored, rfl⟩ := List.mem_map.mp member
        by_cases same : before.githubId = gitHubUser.githubId
        · rw [if_pos same] at isAdmin ⊢
          exact founded.rows before stored isAdmin
        · rw [if_neg same] at isAdmin ⊢
          exact founded.rows before stored isAdmin
    | none =>
      rw [Sessions.advance]
      split
      · exact dropped
      · refine (@replaced (.inserted gitHubUser.githubId) nofun).setUsers fun stored member isAdmin => ?_
        rcases mem_snoc.mp member with before | new
        · exact founded.rows stored before isAdmin
        · rw [new] at isAdmin
          cases isAdmin
  | inserted githubId =>
    rw [Sessions.advance]
    split
    · exact dropped
    · rename_i row stored
      refine replaced fun saved same isAdmin => ?_
      cases same
      exact founded.rows row (mem_of_find stored) isAdmin
  | saved user =>
    exact { dropped with
      issued := fun claims member isAdmin => by
        rcases mem_snoc.mp member with before | new
        · exact founded.issued claims before isAdmin
        · rw [new] at isAdmin ⊢
          exact known user rfl isAdmin
      dated := fun claims member => by
        rcases mem_snoc.mp member with before | new
        · exact founded.dated claims before
        · rw [new]
          exact ⟨rfl, Nat.le_refl state.now⟩
      requests := fun request member =>
        (founded.requests request member).imp_right fun backed => backed.mono (List.subset_append_left _ _)
      acts := fun before act after split =>
        (founded.acts before act after split).imp_right fun backed => backed.mono (List.subset_append_left _ _) }

theorem Founded.admit (founded : Founded users state) {admin : AdminUser} (operation : AdminOperation)
    {authorization : Option String} (unforged : Unforged jwt state authorization)
    (admitted : AdminUser.fromRequestParts jwt state.now authorization = .ok admin) :
    Founded users { state with requests := state.requests ++ [⟨admin, state.now, operation⟩] } :=
  { founded with
    requests := fun request member => by
      rcases mem_snoc.mp member with before | new
      · exact founded.requests request before
      · obtain ⟨claims, listed, same, isAdmin, fresh⟩ := AdminUser.claims_of_fromRequestParts unforged admitted
        obtain ⟨expires, past⟩ := founded.dated claims listed
        rw [new]
        refine ⟨?_, claims, listed, same, isAdmin, past, ?_⟩
        · rw [AdminRequest.actor, ← same]
          exact founded.issued claims listed isAdmin
        · rwa [expires] at fresh }

theorem find_isSome {row : UserRow} (member : row ∈ state.users) : (state.find row.githubId).isSome = true :=
  List.find?_isSome.mpr ⟨row, member, decide_eq_true rfl⟩

theorem rows_carryOut {operation : AdminOperation} {row : UserRow} (member : row ∈ (state.carryOut operation).users)
    (isAdmin : row.isAdmin = true) :
    operation = .promoteUser row.githubId ∧ state.affects operation = true ∨
      ∃ before ∈ state.users, before.githubId = row.githubId ∧ before.isAdmin = true := by
  cases operation with
  | promoteUser githubId =>
    obtain ⟨before, stored, rfl⟩ := List.mem_map.mp member
    by_cases same : before.githubId = githubId
    · rw [if_pos same]
      subst same
      exact Or.inl ⟨rfl, find_isSome stored⟩
    · rw [if_neg same] at isAdmin ⊢
      exact Or.inr ⟨before, stored, rfl, isAdmin⟩
  | demoteUser githubId =>
    obtain ⟨before, stored, rfl⟩ := List.mem_map.mp member
    by_cases same : before.githubId = githubId
    · rw [if_pos same] at isAdmin
      cases isAdmin
    · rw [if_neg same] at isAdmin ⊢
      exact Or.inr ⟨before, stored, rfl, isAdmin⟩
  | deleteUser githubId => exact Or.inr ⟨row, (List.mem_filter.mp member).1, rfl, isAdmin⟩
  | other => exact Or.inr ⟨row, member, rfl, isAdmin⟩

theorem carryOut_frame (operation : AdminOperation) :
    (state.carryOut operation).callbacks = state.callbacks ∧ (state.carryOut operation).issued = state.issued ∧
      (state.carryOut operation).now = state.now := by
  cases operation <;> exact ⟨rfl, rfl, rfl⟩

theorem Founded.perform (founded : Founded users state) {place : Nat} {request : AdminRequest}
    (found : state.requests[place]? = some request) :
    Founded users { state.carryOut request.operation with
      requests := state.requests.eraseIdx place
      acts := state.acts ++ [⟨request, state.affects request.operation⟩] } := by
  obtain ⟨callbacks, issued, now⟩ := @carryOut_frame state request.operation
  obtain ⟨entitled, backed⟩ := founded.requests request (List.mem_of_getElem? found)
  have later : ∀ {githubId}, MayAdminister users state.acts githubId →
      MayAdminister users (state.acts ++ [⟨request, state.affects request.operation⟩]) githubId := fun before => before.snoc _
  constructor
  case rows =>
    intro row member isAdmin
    rcases rows_carryOut member isAdmin with promotes | ⟨before, stored, same, admin⟩
    · exact entitled.grant promotes
    · exact same ▸ later (founded.rows before stored admin)
  case callbacks =>
    dsimp only
    rw [callbacks]
    exact fun callback member row same isAdmin => later (founded.callbacks callback member row same isAdmin)
  case issued =>
    dsimp only
    rw [issued]
    exact fun claims member isAdmin => later (founded.issued claims member isAdmin)
  case dated =>
    dsimp only
    rw [issued, now]
    exact founded.dated
  case requests =>
    dsimp only
    rw [issued]
    exact fun other member => (founded.requests other (List.mem_of_mem_eraseIdx member)).imp_left later
  case acts =>
    dsimp only
    rw [issued]
    exact each_snoc.mpr ⟨founded.acts, entitled, backed⟩

theorem founded_step {action : SessionAction} (founded : Founded users state) (genuine : Genuine jwt state action)
    (taken : state.step jwt action = some next) : Founded users next := by
  cases action with
  | tick =>
    cases taken
    exact { founded with
      dated := fun claims member => (founded.dated claims member).imp_right Nat.le_succ_of_le }
  | callback gitHubUser =>
    cases taken
    refine founded.setCallbacks fun callback member => ?_
    rcases mem_snoc.mp member with before | new
    · exact Or.inl before
    · rw [new]
      exact Or.inr fun row stored isAdmin => founded.rows row (mem_of_find stored) isAdmin
  | advance place =>
    obtain ⟨callback, found, rfl⟩ := Option.map_eq_some_iff.mp taken
    exact founded.advance found
  | dropCallback place =>
    cases taken
    exact founded.setCallbacks fun callback member => Or.inl (List.mem_of_mem_eraseIdx member)
  | request authorization operation =>
    rw [step] at taken
    split at taken
    · rename_i admin admitted
      cases taken
      exact founded.admit operation (genuine authorization operation rfl) admitted
    · cases taken
      exact founded
  | perform place =>
    obtain ⟨request, found, rfl⟩ := Option.map_eq_some_iff.mp taken
    exact founded.perform found
  | dropRequest place =>
    cases taken
    exact { founded with
      requests := fun request member => founded.requests request (List.mem_of_mem_eraseIdx member) }

/-- In every run, whoever acts as an admin is linked by earlier acts of promotion to somebody
who was an admin at the start, and was an admin himself when he last signed in, which is no
longer ago than a token lives. -/
theorem run_founded {actions : List SessionAction} (run : Run (step jwt) (Genuine jwt) (start users) actions state) :
    ∀ before act after, state.acts = before ++ act :: after →
      MayAdminister users before act.actor ∧ act.BackedBy state.issued :=
  (run.invariant (founded_start users) fun _ _ _ founded genuine taken => founded_step founded genuine taken).acts

def IsAdmin (state : Sessions) (githubId : Nat) : Prop :=
  ∃ row ∈ state.users, row.githubId = githubId ∧ row.isAdmin = true

/-- No sign-in is under way that has found the user as an admin. -/
def Settled (state : Sessions) (githubId : Nat) : Prop :=
  ∀ callback ∈ state.callbacks, ∀ row, callback.row = some row → row.githubId = githubId → row.isAdmin = false

/-- What the user still has as an admin are tokens of before. -/
structure Lapsed (since githubId : Nat) (state : Sessions) : Prop where
  settled : state.Settled githubId
  issued : ∀ claims ∈ state.issued, claims.githubId = githubId → claims.isAdmin = true →
    claims.exp ≤ since + tokenLifetime

variable {githubId since : Nat}

theorem not_isAdmin_of_find (away : ¬state.IsAdmin githubId) {row : UserRow} (stored : row ∈ state.users)
    (same : row.githubId = githubId) : row.isAdmin = false :=
  Bool.eq_false_iff.mpr fun isAdmin => away ⟨row, stored, same, isAdmin⟩

theorem Lapsed.setCallbacks (lapsed : Lapsed since githubId state) {callbacks : List Callback} {rows : List UserRow}
    (known : ∀ callback ∈ callbacks, callback ∈ state.callbacks ∨
      ∀ row, callback.row = some row → row.githubId = githubId → row.isAdmin = false) :
    Lapsed since githubId { state with users := rows, callbacks := callbacks } where
  settled callback member := (known callback member).elim (lapsed.settled callback) id
  issued := lapsed.issued

theorem Lapsed.advance (lapsed : Lapsed since githubId state) (away : ¬state.IsAdmin githubId) {place : Nat}
    {callback : Callback} (found : state.callbacks[place]? = some callback) :
    Lapsed since githubId (state.advance place callback) := by
  have known := lapsed.settled callback (List.mem_of_getElem? found)
  have replaced : ∀ (rows : List UserRow) {other : Callback},
      (∀ row, other.row = some row → row.githubId = githubId → row.isAdmin = false) →
      Lapsed since githubId { state with users := rows, callbacks := state.callbacks.set place other } := by
    intro rows other fine
    refine lapsed.setCallbacks fun entry member => ?_
    rcases List.mem_or_eq_of_mem_set member with before | rfl
    · exact Or.inl before
    · exact Or.inr fine
  have dropped : Lapsed since githubId { state with callbacks := state.callbacks.eraseIdx place } :=
    lapsed.setCallbacks fun entry member => Or.inl (List.mem_of_mem_eraseIdx member)
  cases callback with
  | selected gitHubUser existing =>
    cases existing with
    | some row =>
      refine replaced _ fun saved same other => ?_
      cases same
      exact known row rfl other
    | none =>
      rw [Sessions.advance]
      split
      · exact dropped
      · exact replaced _ nofun
  | inserted githubId =>
    rw [Sessions.advance]
    split
    · exact dropped
    · rename_i row stored
      refine replaced state.users fun saved same other => ?_
      cases same
      exact not_isAdmin_of_find away (mem_of_find stored) other
  | saved user =>
    refine ⟨dropped.settled, fun claims member same isAdmin => ?_⟩
    rcases mem_snoc.mp member with before | new
    · exact lapsed.issued claims before same isAdmin
    -- The row of this sign-in is not that of an admin, so neither is the token.
    · rw [new] at same isAdmin
      have no := known user rfl same
      rw [show user.isAdmin = true from isAdmin] at no
      cases no

theorem lapsed_step {action : SessionAction} (lapsed : Lapsed since githubId state) (away : ¬state.IsAdmin githubId)
    (taken : state.step jwt action = some next) : Lapsed since githubId next := by
  cases action with
  | tick =>
    cases taken
    exact ⟨lapsed.settled, lapsed.issued⟩
  | callback gitHubUser =>
    cases taken
    refine lapsed.setCallbacks fun callback member => ?_
    rcases mem_snoc.mp member with before | new
    · exact Or.inl before
    · rw [new]
      exact Or.inr fun row stored same => not_isAdmin_of_find away (mem_of_find stored) same
  | advance place =>
    obtain ⟨callback, found, rfl⟩ := Option.map_eq_some_iff.mp taken
    exact lapsed.advance away found
  | dropCallback place =>
    cases taken
    exact lapsed.setCallbacks fun callback member => Or.inl (List.mem_of_mem_eraseIdx member)
  | request authorization operation =>
    rw [step] at taken
    split at taken
    · cases taken
      exact ⟨lapsed.settled, lapsed.issued⟩
    · cases taken
      exact lapsed
  | perform place =>
    obtain ⟨request, found, rfl⟩ := Option.map_eq_some_iff.mp taken
    obtain ⟨callbacks, issued, -⟩ := @carryOut_frame state request.operation
    refine ⟨?_, ?_⟩
    · rw [Settled]
      dsimp only
      rw [callbacks]
      exact lapsed.settled
    · dsimp only
      rw [issued]
      exact lapsed.issued
  | dropRequest place =>
    cases taken
    exact ⟨lapsed.settled, lapsed.issued⟩

/-- A user who is no admin any more, and who was not signing in when he ceased to be one, is let
in as an admin for as long as a token lives, and then no more. -/
theorem run_revoked {middle final : Sessions} {before after : List SessionAction}
    (run : Run (step jwt) (Genuine jwt) (start users) before middle) (settled : middle.Settled githubId)
    (rest : Run (step jwt) (fun state action => Genuine jwt state action ∧ ¬state.IsAdmin githubId) middle after final)
    {authorization : Option String} (unforged : Unforged jwt final authorization) {admin : AdminUser}
    (admitted : AdminUser.fromRequestParts jwt final.now authorization = .ok admin)
    (same : admin.val.githubId = githubId) :
    final.now ≤ middle.now + tokenLifetime + leeway := by
  have founded : Founded users middle :=
    run.invariant (founded_start users) fun _ _ _ founded genuine taken => founded_step founded genuine taken
  have first : Lapsed middle.now githubId middle := by
    refine ⟨settled, fun claims listed _ _ => ?_⟩
    obtain ⟨expires, past⟩ := founded.dated claims listed
    rw [expires]
    exact Nat.add_le_add_right past tokenLifetime
  have lapsed : Lapsed middle.now githubId final :=
    rest.invariant first fun _ _ _ lapsed good taken => lapsed_step lapsed good.2 taken
  obtain ⟨claims, listed, own, isAdmin, fresh⟩ := AdminUser.claims_of_fromRequestParts unforged admitted
  have expires := lapsed.issued claims listed (own.trans same) isAdmin
  exact Nat.le_trans fresh (Nat.add_le_add_right expires leeway)

def ada : UserRow := ⟨⟨1, "ada"⟩, true⟩

def bob : UserRow := ⟨⟨2, "bob"⟩, false⟩

/-- Bob's token is that of the admin he has become. -/
def bothJwt : JwtService :=
  ⟨fun token => if token = "ada" then some (JwtService.createToken 0 ada)
    else if token = "bob" then some (JwtService.createToken 0 { bob with isAdmin := true }) else none⟩

def handOver : List SessionAction :=
  [.callback ada.toAuthenticatedUser, .advance 0, .advance 0, .request (some "Bearer ada") (.promoteUser 2), .perform 0,
    .callback bob.toAuthenticatedUser, .advance 0, .advance 0, .request (some "Bearer bob") (.demoteUser 1), .perform 0]

theorem admin_isAdmin (githubId : Nat) : (⟨githubId, true⟩ : AuthUser).isAdmin = true := rfl

def promotion : AdminAct := ⟨⟨⟨⟨1, true⟩, admin_isAdmin 1⟩, 0, .promoteUser 2⟩, true⟩

def demotion : AdminAct := ⟨⟨⟨⟨2, true⟩, admin_isAdmin 2⟩, 0, .demoteUser 1⟩, true⟩

def handedOver : Sessions :=
  ⟨0, [{ ada with isAdmin := false }, { bob with isAdmin := true }], [],
    [JwtService.createToken 0 ada, JwtService.createToken 0 { bob with isAdmin := true }], [], [promotion, demotion]⟩

theorem unforged_ada (signed : JwtService.createToken 0 ada ∈ state.issued) :
    Unforged bothJwt state (some "Bearer ada") := by
  intro token claims shown decoded
  cases shown
  cases decoded
  exact signed

theorem unforged_bob (signed : JwtService.createToken 0 { bob with isAdmin := true } ∈ state.issued) :
    Unforged bothJwt state (some "Bearer bob") := by
  intro token claims shown decoded
  cases shown
  cases decoded
  exact signed

theorem run_handOver : Run (step bothJwt) (Genuine bothJwt) (start [ada, bob]) handOver handedOver := by
  refine .cons (fun _ _ => nofun) rfl (.cons (fun _ _ => nofun) rfl (.cons (fun _ _ => nofun) rfl
    (.cons ?_ rfl (.cons (fun _ _ => nofun) rfl (.cons (fun _ _ => nofun) rfl (.cons (fun _ _ => nofun) rfl
      (.cons (fun _ _ => nofun) rfl (.cons ?_ rfl (.cons (fun _ _ => nofun) rfl .start)))))))))
  · rintro _ _ ⟨⟩
    exact unforged_ada List.mem_cons_self
  · rintro _ _ ⟨⟩
    exact unforged_bob (List.mem_cons_of_mem _ List.mem_cons_self)

/-- Bob, who was no admin, acts by the promotion. -/
theorem handOver_founded : MayAdminister [ada, bob] [promotion] 2 := (run_founded run_handOver [promotion] demotion [] rfl).1

theorem handOver_revoked : 1 ≤ handedOver.now + tokenLifetime + leeway := by
  have rest : Run (step bothJwt) (fun state action => Genuine bothJwt state action ∧ ¬state.IsAdmin 1) handedOver [.tick]
      { handedOver with now := 1 } :=
    .cons ⟨fun _ _ => nofun, by simp [IsAdmin, handedOver, ada, bob]⟩ rfl .start
  have admitted : AdminUser.fromRequestParts bothJwt 1 (some "Bearer ada") = .ok ⟨⟨1, true⟩, rfl⟩ := rfl
  exact run_revoked run_handOver nofun rest (unforged_ada List.mem_cons_self) admitted rfl

end Sessions

end EkaCI
